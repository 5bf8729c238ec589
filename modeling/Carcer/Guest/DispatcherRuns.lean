import Carcer.Guest.Dispatcher

/-!
# Runs of the serial dispatcher

The goroutines of a dispatcher as one transition system. The reader and the exchange that holds
`exchangeMu` each have a place in their code; a step is one section under the mutex of one of them,
or a result that the environment gives it: what `Pump` has sent and received, what a handler
returns, a cancelled context, a deadline that has passed. Steps of different goroutines interleave
in any order.

Next to the state of the source a system keeps a record of the run: the frames queued and the bytes
that the serial channel has taken, the frames that the guest has sent, what the exchanges have
returned, and the host services begun and finished. No step looks at the record.

## Main definitions

* `Reader`, `ExchangeCall`: where a goroutine stands
* `System`: the dispatcher, its goroutines and the record of the run
* `Action`, `step`: the steps, each with the choice of the environment
* `Reachable`: the states of the runs of a new dispatcher

## Main results

* `Reachable.run`: a list of actions that can be taken leads to a reachable state
-/

namespace Carcer.Guest

open Carcer.Wire

/-- What a round of `readLoop` keeps until its end: the write that it took from the queue, the
number of bytes that it handed to `Pump`, and the count that `Pump` returned. -/
structure PumpRound where
  queued : Option ℕ
  outgoing : ℕ
  sent : ℤ
  deriving DecidableEq

/-- Where the reader stands. -/
inductive Reader
  /-- `start` has not been called. -/
  | idle
  /-- At the top of `readLoop`. -/
  | top
  /-- In `Pump`. -/
  | pumping (queued : Option ℕ) (outgoing : Bytes)
  /-- Before the section of `consumeIncoming`. -/
  | incoming (data : Bytes) (round : PumpRound)
  /-- At the top of the loop of `consumeStartup`. -/
  | startup (round : PumpRound)
  /-- At the top of the loop of `consumeFrames`. -/
  | frames (round : PumpRound)
  /-- Before the first section of `dispatchHostService`. -/
  | dispatching (frame : Frame) (scope : Scope) (round : PumpRound)
  /-- Between that section and the response. -/
  | serving (frame : Frame) (scope : Scope) (round : PumpRound)
  /-- Before `queueWrite` of the response. -/
  | responding (requestID : UInt32) (encoded : Bytes) (scope : Scope) (round : PumpRound)
  /-- Before the deferred `finishHostService` of a dispatch that returns an error. -/
  | finishing (error : DispatcherError)
  /-- Behind `consumeIncoming`. -/
  | advancing (round : PumpRound)
  /-- Before `fail`. -/
  | failing (error : DispatcherError)
  | exited
  deriving DecidableEq

/-- Where an exchange stands. -/
inductive ExchangePlace
  /-- Behind its first section. -/
  | queueing
  /-- In `waitForWrite`. -/
  | waiting (queued : ℕ)
  /-- At the top of the loop that waits for the response. -/
  | receiving
  /-- Before `abortExchange`. -/
  | aborting (error : DispatcherError)
  /-- Before the deferred section, with the response that is returned and its number among the
  frames of the guest, or with an error. -/
  | returning (response : Option (Frame × ℕ))
  deriving DecidableEq

/-- The exchange that holds `exchangeMu`. -/
structure ExchangeCall where
  request : Frame
  place : ExchangePlace
  deriving DecidableEq

/-- What an exchange ends with, as far as the record goes. -/
inductive ExchangeEvent
  /-- The exchange returned the response, which has the given number among the frames of the
  guest. -/
  | returned (request response : Frame) (number : ℕ)
  /-- The exchange gave up, cancelled or timed out, after its request was queued. -/
  | abandoned (request : Frame)
  deriving DecidableEq

/-- The dispatcher, its goroutines and the record of the run. -/
structure System where
  d : Dispatcher
  reader : Reader
  exchange : Option ExchangeCall
  /-- The frames queued, in order. -/
  queued : List Bytes
  /-- The bytes that the serial channel has taken. -/
  sent : Bytes
  /-- How many of them the offset of the first write does not count yet. -/
  inFlight : ℕ
  /-- The frames that `consumeFrames` has taken off the stream, in order. -/
  extracted : List Frame
  /-- The number of the frame that `response` holds. -/
  delivered : Option ℕ
  log : List ExchangeEvent
  /-- The host services begun, and those finished. -/
  begun : ℕ
  finished : ℕ
  deriving DecidableEq

def System.initial : System where
  d := newSerialProtocolDispatcher
  reader := .idle
  exchange := none
  queued := []
  sent := []
  inFlight := 0
  extracted := []
  delivered := none
  log := []
  begun := 0
  finished := 0

/-- The host-service responses in the queue. -/
def Dispatcher.hostWrites (d : Dispatcher) : ℕ :=
  d.writes.countP fun queued => queued.kind = .hostResponse

/-- What `Pump` does: it takes some of the outgoing bytes, and returns an error, or what has arrived
and a count. -/
inductive PumpResult
  | failed (taken : ℕ)
  | returned (incoming : Option Bytes) (sent : ℤ) (taken : ℕ)
  deriving DecidableEq

/-- A step, with the choice of the environment. -/
inductive Action
  /-- `Start` or `StartReady`. -/
  | start (ready : Bool)
  /-- `Close` or `CloseFromCallback`. -/
  | close
  /-- The next section of the reader. -/
  | read
  /-- The same, when the deadline of the write at the front of the queue has passed. -/
  | stall
  | pump (result : PumpResult)
  /-- The handler returns. -/
  | serve (result : HandlerResult)
  /-- A call of `Exchange` takes `exchangeMu`. -/
  | exchange (request : Frame)
  /-- The next section of the exchange. -/
  | proceed
  /-- The exchange finds its context cancelled. -/
  | cancel
  /-- The exchange finds its deadline passed, or that of the transfer. -/
  | timeout (transfer : Bool)
  deriving DecidableEq

namespace System

/-- The loop that a host service was dispatched from. -/
def resume (scope : Scope) (round : PumpRound) : Reader :=
  match scope with
  | .startup => .startup round
  | .background | .exchange => .frames round

/-- The end of a round of `readLoop`. -/
def advance (stalled : Bool) (round : PumpRound) (s : System) : System :=
  if round.sent < 0 ∨ round.sent > round.outgoing then
    { s with reader := .failing .invalidWriteCount }
  else
    match round.queued with
    | none => { s with reader := .top }
    | some queued =>
      match s.d.advanceWrite queued round.sent.toNat stalled with
      | .error e => { s with reader := .failing e }
      | .ok d => { s with
          d := d
          reader := .top
          inFlight := 0
          -- a response that has left the queue finishes its host service
          finished := s.finished + (s.d.hostWrites - d.hostWrites) }

/-- The next section of the reader. -/
def read (options : DispatcherOptions) (s : System) : Option System :=
  match s.reader with
  | .idle | .pumping .. | .serving .. | .exited => none
  | .top =>
    if s.d.closing then some { s with reader := .exited }
    else some { s with reader := .pumping (s.d.writes.head?.map QueuedWrite.id) s.d.outgoing }
  | .incoming data round => some { s with
      d := s.d.receive data
      reader := if s.d.ready then .frames round else .startup round }
  | .startup round =>
    match s.d.startupRound options with
    | (.done, d) => some { s with d := d, reader := .advancing round }
    | (.failed e, d) => some { s with d := d, reader := .failing e }
    | (.ready, d) => some { s with d := d, reader := .frames round }
    | (.diagnostic _, d) => some { s with d := d, reader := .startup round }
    | (.dispatch frame, d) => some { s with d := d, reader := .dispatching frame .startup round }
  | .frames round =>
    match s.d.framesRound with
    | (.done, d) => some { s with d := d, reader := .advancing round }
    | (.failed e, d) => some { s with d := d, reader := .failing e }
    | (.response frame, d) => some { s with
        d := d
        reader := .frames round
        extracted := s.extracted ++ [frame]
        delivered := some s.extracted.length }
    | (.dispatch frame scope, d) => some { s with
        d := d
        reader := .dispatching frame scope round
        extracted := s.extracted ++ [frame] }
  | .dispatching frame scope round => some { s with
      d := s.d.beginHostService
      reader := .serving frame scope round
      begun := s.begun + 1 }
  | .responding requestID encoded scope round =>
    match s.d.queueWrite encoded .hostResponse requestID with
    | .error e => some { s with reader := .finishing e }
    | .ok (_, d) => some { s with
        d := d
        reader := resume scope round
        queued := s.queued ++ [encoded] }
  | .finishing e => some { s with
      d := s.d.finishHostServiceLocked
      reader := .failing e
      finished := s.finished + 1 }
  | .advancing round => some (s.advance false round)
  | .failing e => some { s with d := s.d.fail e, reader := .exited }

/-- A call of `Pump` returns. The count that it returns is that of the bytes it has taken, unless it
is out of range. -/
def pump (result : PumpResult) (s : System) : Option System :=
  match s.reader with
  | .pumping queued outgoing =>
    match result with
    | .failed taken =>
      if taken ≤ outgoing.length then some { s with
        sent := s.sent ++ outgoing.take taken
        inFlight := taken
        reader := .failing .transport }
      else none
    | .returned incoming sent taken =>
      if taken ≤ outgoing.length ∧ (0 ≤ sent → sent ≤ outgoing.length → sent = taken) then
        let round : PumpRound := ⟨queued, outgoing.length, sent⟩
        some { s with
          sent := s.sent ++ outgoing.take taken
          inFlight := taken
          reader := match incoming with
            | some data => .incoming data round
            | none => .advancing round }
      else none
  | _ => none

/-- The response to a host-service request is at hand. -/
def serve (options : DispatcherOptions) (result : HandlerResult) (s : System) : Option System :=
  match s.reader with
  | .serving frame scope round =>
    match hostResponse (options.handler scope) frame fun _ => result with
    | .error e => some { s with reader := .finishing e }
    | .ok (requestID, encoded) =>
      some { s with reader := .responding requestID encoded scope round }
  | _ => none

/-- A call of `Exchange`, which a dispatcher that is not ready, failed or closed refuses. -/
def beginExchange (request : Frame) (s : System) : Option System :=
  match s.exchange with
  | some _ => none
  | none =>
    if s.d.ready = false ∨ s.d.failure ≠ none ∨ s.d.closing then some s
    else some { s with
      d := s.d.beginExchange request
      exchange := some ⟨request, .queueing⟩
      delivered := none }

/-- The next section of the exchange. -/
def proceed (s : System) : Option System :=
  match s.exchange with
  | none => none
  | some ⟨request, .queueing⟩ =>
    match encodeFrame request with
    | .error _ => some { s with exchange := some ⟨request, .returning none⟩ }
    | .ok encoded =>
      match s.d.queueWrite encoded .toolRequest request.requestID with
      | .error _ => some { s with exchange := some ⟨request, .returning none⟩ }
      | .ok (queued, d) => some { s with
          d := d
          exchange := some ⟨request, .waiting queued.id⟩
          queued := s.queued ++ [encoded] }
  | some ⟨request, .waiting queued⟩ =>
    if s.d.failure ≠ none then some { s with exchange := some ⟨request, .returning none⟩ }
    else if queued ∈ s.d.completed then some { s with exchange := some ⟨request, .receiving⟩ }
    else none
  | some ⟨request, .receiving⟩ =>
    if s.d.failure ≠ none then some { s with exchange := some ⟨request, .returning none⟩ }
    else
      match s.d.response, s.delivered with
      | some response, some number =>
        some { s with exchange := some ⟨request, .returning (some (response, number))⟩ }
      | _, _ => none
  | some ⟨request, .aborting e⟩ => some { s with
      d := s.d.abortExchange e
      exchange := some ⟨request, .returning none⟩ }
  | some ⟨request, .returning response⟩ => some { s with
      d := s.d.endExchange
      exchange := none
      delivered := none
      log := s.log ++ (response.map fun r => .returned request r.1 r.2).toList }

/-- The exchange gives up, with the error that it sets when it has found a deadline passed. -/
def abandon (error : DispatcherError) (request : Frame) (d : Dispatcher) (s : System) : System :=
  { s with
    d := d
    exchange := some ⟨request, .aborting error⟩
    log := s.log ++ [.abandoned request] }

/-- The exchange finds its context cancelled. -/
def cancel (s : System) : Option System :=
  match s.exchange with
  | some ⟨request, .waiting _⟩ | some ⟨request, .receiving⟩ =>
    some (s.abandon .cancelled request s.d)
  | _ => none

/-- The exchange finds its deadline passed while no host service is active. -/
def timeout (transfer : Bool) (s : System) : Option System :=
  match s.exchange with
  | some ⟨request, .receiving⟩ =>
    if s.d.failure = none ∧ s.d.response = none ∧ s.d.hostActive = 0 then
      let error := if transfer then .transferDeadline else .responseTimeout
      some (s.abandon error request { s.d with failure := some error })
    else none
  | _ => none

/-- `start`, which a dispatcher that has been started or closed refuses. -/
def start (ready : Bool) (s : System) : System :=
  if s.d.started ∨ s.d.closing then s
  else { s with d := { s.d with started := true, ready := ready }, reader := .top }

/-- One step of the system, when the action can be taken. -/
def step (options : DispatcherOptions) (action : Action) (s : System) : Option System :=
  match action with
  | .start ready => some (s.start ready)
  | .close => some { s with d := s.d.close }
  | .read => s.read options
  | .stall =>
    match s.reader with
    | .advancing round => some (s.advance true round)
    | _ => none
  | .pump result => s.pump result
  | .serve result => s.serve options result
  | .exchange request => s.beginExchange request
  | .proceed => s.proceed
  | .cancel => s.cancel
  | .timeout transfer => s.timeout transfer

/-- The states of the runs of a new dispatcher. -/
inductive Reachable (options : DispatcherOptions) : System → Prop
  | initial : Reachable options System.initial
  | step {s s' : System} {action : Action} :
    Reachable options s → step options action s = some s' → Reachable options s'

def run (options : DispatcherOptions) (actions : List Action) (s : System) : Option System :=
  actions.foldlM (fun s action => step options action s) s

/-- The actions of a run lead from a reachable state to a reachable state. -/
theorem Reachable.run {options actions s s'} (hs : Reachable options s)
    (h : System.run options actions s = some s') : Reachable options s' := by
  induction actions generalizing s with
  | nil =>
    cases h
    exact hs
  | cons action actions ih =>
    rw [System.run, List.foldlM_cons, Option.bind_eq_bind, Option.bind_eq_some_iff] at h
    obtain ⟨s₁, hstep, hrun⟩ := h
    exact ih (hs.step hstep) hrun

end System

end Carcer.Guest
