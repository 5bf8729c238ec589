import Carcer.Guest.DispatcherRuns

/-!
# What a step of the dispatcher does

Every step of the system is one of a list of transitions, each with what it changes and when it is
taken. The invariants of the following modules go through this list and not through the code.

## Main definitions

* `Transition`: the transitions

## Main results

* `transition_of_step`: a step is one of the transitions
* `Reachable.invariant`: what the transitions keep holds in every reachable state
-/

namespace Carcer.Guest

open Carcer.Wire

/-- The reader is consuming what it has received in this round. -/
def Reader.Consumes (round : PumpRound) (reader : Reader) : Prop :=
  (∃ data, reader = .incoming data round) ∨ reader = .startup round ∨ reader = .frames round

/-- Where the reader goes on from there, unless it has taken a frame off the stream. -/
def Reader.Continues (round : PumpRound) (reader : Reader) : Prop :=
  reader = .startup round ∨ reader = .frames round ∨ reader = .advancing round ∨
    (∃ frame, reader = .dispatching frame .startup round) ∨ ∃ e, reader = .failing e

/-- Where the reader goes on after `Pump`. -/
def Reader.Pumped (queued : Option ℕ) (outgoing taken : ℕ) (reader : Reader) : Prop :=
  (∃ e, reader = .failing e) ∨
    ∃ round : PumpRound, round.queued = queued ∧ round.outgoing = outgoing ∧
      (0 ≤ round.sent → round.sent ≤ outgoing → round.sent = taken) ∧
      ((∃ data, reader = .incoming data round) ∨ reader = .advancing round)

/-- The exchange can give up at this place because of an error. -/
def ExchangePlace.Underway (place : ExchangePlace) : Prop :=
  place = .queueing ∨ (∃ queued, place = .waiting queued) ∨ place = .receiving

/-- The exchange has queued its request and waits. -/
def ExchangePlace.Waits (place : ExchangePlace) : Prop :=
  (∃ queued, place = .waiting queued) ∨ place = .receiving

variable {reader : Reader}

theorem Reader.Consumes.ne_idle {round} (h : reader.Consumes round) : reader ≠ .idle := by
  rcases h with ⟨data, rfl⟩ | rfl | rfl <;> simp

theorem Reader.Continues.ne_exited {round} (h : reader.Continues round) : reader ≠ .exited := by
  rcases h with rfl | rfl | rfl | ⟨frame, rfl⟩ | ⟨e, rfl⟩ <;> simp

theorem Reader.Pumped.ne_exited {queued : Option ℕ} {outgoing taken : ℕ}
    (h : reader.Pumped queued outgoing taken) : reader ≠ .exited := by
  rcases h with ⟨e, rfl⟩ | ⟨round, -, -, -, ⟨data, rfl⟩ | rfl⟩ <;> simp

namespace System

/-- **The transitions of the system.** -/
inductive Transition (s : System) : System → Prop
  | refused : Transition s s
  | start (ready : Bool) (hstarted : s.d.started = false) (hclosing : s.d.closing = false) :
    Transition s { s with d := { s.d with started := true, ready := ready }, reader := .top }
  | close : Transition s { s with d := s.d.close }
  | exit (hreader : s.reader = .top) (hclosing : s.d.closing = true) :
    Transition s { s with reader := .exited }
  | beginPump (hreader : s.reader = .top) :
    Transition s
      { s with reader := .pumping (s.d.writes.head?.map QueuedWrite.id) s.d.outgoing }
  | endPump {queued : Option ℕ} {outgoing : Bytes} {taken : ℕ} {reader : Reader}
    (hreader : s.reader = .pumping queued outgoing) (htaken : taken ≤ outgoing.length)
    (hnext : reader.Pumped queued outgoing.length taken) :
    Transition s
      { s with sent := s.sent ++ outgoing.take taken, inFlight := taken, reader := reader }
  | consume {round : PumpRound} {reader : Reader} {ready : Bool}
    {startupBuffer frameBuffer diagnostic : Bytes}
    (hreader : s.reader.Consumes round) (hnext : reader.Continues round) :
    Transition s { s with
      d := { s.d with
        ready := ready
        startupBuffer := startupBuffer
        frameBuffer := frameBuffer
        diagnostic := diagnostic }
      reader := reader }
  | request {round : PumpRound} {frame : Frame} {scope : Scope} {rest : Bytes}
    (hreader : s.reader = .frames round) :
    Transition s { s with
      d := { s.d with frameBuffer := rest }
      reader := .dispatching frame scope round
      extracted := s.extracted ++ [frame] }
  | response {round : PumpRound} {frame : Frame} {rest : Bytes}
    (hreader : s.reader = .frames round)
    (hawaited : s.d.Awaited frame.messageType frame.requestID) :
    Transition s { s with
      d := { s.d with frameBuffer := rest, pendingResponse := false, response := some frame }
      reader := .frames round
      extracted := s.extracted ++ [frame]
      delivered := some s.extracted.length }
  | beginService {frame : Frame} {scope : Scope} {round : PumpRound}
    (hreader : s.reader = .dispatching frame scope round) :
    Transition s { s with
      d := s.d.beginHostService
      reader := .serving frame scope round
      begun := s.begun + 1 }
  | respond {frame : Frame} {scope : Scope} {round : PumpRound} {requestID : UInt32}
    {encoded : Bytes} (hreader : s.reader = .serving frame scope round) :
    Transition s { s with reader := .responding requestID encoded scope round }
  | serviceFailed {e : DispatcherError}
    (hreader : (∃ frame scope round, s.reader = .serving frame scope round) ∨
      ∃ requestID encoded scope round, s.reader = .responding requestID encoded scope round) :
    Transition s { s with reader := .finishing e }
  | queueResponse {requestID : UInt32} {encoded : Bytes} {scope : Scope} {round : PumpRound}
    (hreader : s.reader = .responding requestID encoded scope round) (hroom : s.d.Room encoded) :
    Transition s { s with
      d := s.d.enqueue ⟨s.d.nextWrite, encoded, .hostResponse, requestID, 0⟩
      reader := resume scope round
      queued := s.queued ++ [encoded] }
  | finishService {e : DispatcherError} (hreader : s.reader = .finishing e) :
    Transition s { s with
      d := s.d.finishHostServiceLocked
      reader := .failing e
      finished := s.finished + 1 }
  | halt {round : PumpRound} {e : DispatcherError} (hreader : s.reader = .advancing round) :
    Transition s { s with reader := .failing e }
  | turn {round : PumpRound} (hreader : s.reader = .advancing round)
    (hqueued : round.queued = none) :
    Transition s { s with reader := .top }
  | stray {round : PumpRound} {queued : ℕ} (hreader : s.reader = .advancing round)
    (hqueued : round.queued = some queued)
    (hfront : ∀ first ∈ s.d.writes.head?, first.id ≠ queued) :
    Transition s { s with reader := .top, inFlight := 0 }
  | progress {round : PumpRound} {first : QueuedWrite} {rest : List QueuedWrite}
    (hreader : s.reader = .advancing round)
    (hsent : 0 ≤ round.sent) (hle : round.sent ≤ round.outgoing)
    (hwrites : s.d.writes = first :: rest) (hqueued : round.queued = some first.id)
    (hremains : first.offset + round.sent.toNat ≠ first.data.length) :
    Transition s { s with
      d := { s.d with
        writes := { first with offset := first.offset + round.sent.toNat } :: rest }
      reader := .top
      inFlight := 0 }
  | complete {round : PumpRound} {first : QueuedWrite} {rest : List QueuedWrite}
    (hreader : s.reader = .advancing round)
    (hsent : 0 ≤ round.sent) (hle : round.sent ≤ round.outgoing)
    (hwrites : s.d.writes = first :: rest) (hqueued : round.queued = some first.id)
    (hcomplete : first.offset + round.sent.toNat = first.data.length) :
    Transition s { s with
      d := s.d.completeWrite first rest
      reader := .top
      inFlight := 0
      finished := s.finished + if first.kind = .hostResponse then 1 else 0 }
  | fail {e : DispatcherError} (hreader : s.reader = .failing e) :
    Transition s { s with d := s.d.fail e, reader := .exited }
  | beginExchange {request : Frame} (hexchange : s.exchange = none)
      (hfailure : s.d.failure = none) :
    Transition s { s with
      d := s.d.beginExchange request
      exchange := some ⟨request, .queueing⟩
      delivered := none }
  | queueRequest {request : Frame} {encoded : Bytes}
    (hexchange : s.exchange = some ⟨request, .queueing⟩) (hroom : s.d.Room encoded) :
    Transition s { s with
      d := s.d.enqueue ⟨s.d.nextWrite, encoded, .toolRequest, request.requestID, 0⟩
      exchange := some ⟨request, .waiting s.d.nextWrite⟩
      queued := s.queued ++ [encoded] }
  | giveUp {request : Frame} {place : ExchangePlace}
      (hexchange : s.exchange = some ⟨request, place⟩)
    (hplace : place.Underway) :
    Transition s { s with exchange := some ⟨request, .returning none⟩ }
  | written {request : Frame} {queued : ℕ}
    (hexchange : s.exchange = some ⟨request, .waiting queued⟩) :
    Transition s { s with exchange := some ⟨request, .receiving⟩ }
  | answered {request response : Frame} {number : ℕ}
    (hexchange : s.exchange = some ⟨request, .receiving⟩) (hfailure : s.d.failure = none)
    (hresponse : s.d.response = some response) (hdelivered : s.delivered = some number) :
    Transition s { s with exchange := some ⟨request, .returning (some (response, number))⟩ }
  | abort {request : Frame} {e : DispatcherError}
    (hexchange : s.exchange = some ⟨request, .aborting e⟩) :
    Transition s
      { s with d := s.d.abortExchange e, exchange := some ⟨request, .returning none⟩ }
  | endExchange {request : Frame} {response : Option (Frame × ℕ)}
    (hexchange : s.exchange = some ⟨request, .returning response⟩) :
    Transition s { s with
      d := s.d.endExchange
      exchange := none
      delivered := none
      log := s.log ++ (response.map fun r => .returned request r.1 r.2).toList }
  | cancel {request : Frame} {place : ExchangePlace}
      (hexchange : s.exchange = some ⟨request, place⟩)
    (hplace : place.Waits) :
    Transition s (s.abandon .cancelled request s.d)
  | timeout {request : Frame} {error : DispatcherError}
    (hexchange : s.exchange = some ⟨request, .receiving⟩) :
    Transition s (s.abandon error request { s.d with failure := some error })

variable {round : PumpRound} {s s' : System} {options : DispatcherOptions}

theorem transition_of_advance (stalled : Bool) {s : System}
    (hreader : s.reader = .advancing round) : Transition s (s.advance stalled round) := by
  unfold advance
  split_ifs with hcount
  · exact .halt hreader
  rw [not_or, not_lt, not_lt] at hcount
  rcases hqueued : round.queued with _ | queued
  · exact .turn hreader hqueued
  have hstray : (∀ first ∈ s.d.writes.head?, first.id ≠ queued) →
      Transition s { s with
        reader := .top
        inFlight := 0
        finished := s.finished + (s.d.hostWrites - s.d.hostWrites) } := by
    intro hfront
    rw [Nat.sub_self]
    exact .stray hreader hqueued hfront
  rcases hwrites : s.d.writes with _ | ⟨first, rest⟩
  · have hsame : s.d.advanceWrite queued round.sent.toNat stalled = .ok s.d := by
      rw [Dispatcher.advanceWrite, hwrites]
    simp only [hsame]
    exact hstray (by simp [hwrites])
  by_cases hid : first.id = queued
  · subst hid
    rcases Dispatcher.advanceWrite_front hwrites round.sent.toNat stalled with herror |
      ⟨hremains, hok⟩ | ⟨hcomplete, hok⟩
    · simp only [herror]
      exact .halt hreader
    · simp only [hok]
      have hkept : s.finished + (s.d.hostWrites - Dispatcher.hostWrites { s.d with
          writes := { first with offset := first.offset + round.sent.toNat } :: rest }) =
          s.finished := by
        simp [Dispatcher.hostWrites, hwrites, List.countP_cons]
      rw [hkept]
      exact .progress hreader hcount.1 hcount.2 hwrites hqueued hremains
    · simp only [hok]
      have hfinished : s.d.hostWrites - (s.d.completeWrite first rest).hostWrites =
          if first.kind = .hostResponse then 1 else 0 := by
        obtain ⟨hostActive, hostWindow, heq⟩ := s.d.completeWrite_eq first rest
        rw [heq]
        simp [Dispatcher.hostWrites, hwrites, List.countP_cons]
      rw [hfinished]
      exact .complete hreader hcount.1 hcount.2 hwrites hqueued hcomplete
  · have hsame : s.d.advanceWrite queued round.sent.toNat stalled = .ok s.d := by
      rw [Dispatcher.advanceWrite, hwrites]
      simp only [ne_eq, hid, not_false_eq_true, if_true]
    simp only [hsame]
    exact hstray (by simpa [hwrites] using hid)

/-- A round of `consumeStartup` touches the input of the dispatcher only. -/
theorem startupRound_input (options : DispatcherOptions) (d : Dispatcher) :
    ∃ ready startupBuffer frameBuffer diagnostic, (d.startupRound options).2 = { d with
      ready := ready
      startupBuffer := startupBuffer
      frameBuffer := frameBuffer
      diagnostic := diagnostic } := by
  unfold Dispatcher.startupRound
  split
  · exact ⟨_, _, _, _, rfl⟩
  split_ifs
  · exact ⟨_, _, _, _, rfl⟩
  · split
    iterate 2 exact ⟨_, _, _, _, rfl⟩
    · split_ifs <;> exact ⟨_, _, _, _, rfl⟩
  all_goals exact ⟨_, _, _, _, rfl⟩

theorem transition_of_startup
    (hreader : s.reader = .startup round) (h : s.read options = some s') : Transition s s' := by
  obtain ⟨ready, startupBuffer, frameBuffer, diagnostic, hinput⟩ := startupRound_input options s.d
  have hconsumes : s.reader.Consumes round := .inr (.inl hreader)
  simp only [read, hreader] at h
  rcases hround : s.d.startupRound options with ⟨_ | e | _ | byte | frame, d⟩ <;>
    rw [hround] at h hinput <;> obtain rfl := Option.some.inj h <;>
    obtain rfl : d = _ := hinput
  · exact .consume hconsumes (.inr (.inr (.inl rfl)))
  · exact .consume hconsumes (.inr (.inr (.inr (.inr ⟨e, rfl⟩))))
  · exact .consume hconsumes (.inr (.inl rfl))
  · exact .consume hconsumes (.inl rfl)
  · exact .consume hconsumes (.inr (.inr (.inr (.inl ⟨frame, rfl⟩))))

theorem transition_of_frames
    (hreader : s.reader = .frames round) (h : s.read options = some s') : Transition s s' := by
  have hconsumes : s.reader.Consumes round := .inr (.inr hreader)
  simp only [read, hreader] at h
  rcases s.d.framesRound_cases with ⟨e, hcase⟩ | ⟨-, hcase⟩ | ⟨frame, rest, -, -, -, -, hcase⟩ |
    ⟨frame, rest, -, -, -, hawaited, hcase⟩ <;> rw [hcase] at h <;>
    cases h
  · exact .consume hconsumes (.inr (.inr (.inr (.inr ⟨e, rfl⟩))))
  · exact .consume hconsumes (.inr (.inr (.inl rfl)))
  · exact .request hreader
  · exact .response hreader hawaited

theorem transition_of_read (h : s.read options = some s') : Transition s s' := by
  cases hreader : s.reader with
  | idle | pumping | serving | exited => simp [read, hreader] at h
  | startup round => exact transition_of_startup hreader h
  | frames round => exact transition_of_frames hreader h
  | top =>
    simp only [read, hreader] at h
    split_ifs at h with hclosing <;> obtain rfl := Option.some.inj h
    · exact .exit hreader hclosing
    · exact .beginPump hreader
  | incoming data round =>
    simp only [read, hreader] at h
    cases h
    have hconsumes : s.reader.Consumes round := .inl ⟨data, hreader⟩
    unfold Dispatcher.receive
    split_ifs
    · exact .consume hconsumes (.inr (.inl rfl))
    · exact .consume hconsumes (.inl rfl)
  | dispatching frame scope round =>
    simp only [read, hreader] at h
    cases h
    exact .beginService hreader
  | responding requestID encoded scope round =>
    simp only [read, hreader] at h
    cases hqueue : s.d.queueWrite encoded .hostResponse requestID with
    | error e =>
      rw [hqueue] at h
      cases h
      exact .serviceFailed (.inr ⟨_, _, _, _, hreader⟩)
    | ok result =>
      obtain ⟨queued, d⟩ := result
      rw [hqueue] at h
      cases h
      obtain ⟨hroom, rfl, rfl⟩ := Dispatcher.queueWrite_eq_ok.mp hqueue
      exact .queueResponse hreader hroom
  | finishing e =>
    simp only [read, hreader] at h
    cases h
    exact .finishService hreader
  | advancing round =>
    simp only [read, hreader] at h
    cases h
    exact transition_of_advance false hreader
  | failing e =>
    simp only [read, hreader] at h
    cases h
    exact .fail hreader

theorem transition_of_pump {result} (h : s.pump result = some s') : Transition s s' := by
  unfold pump at h
  split at h
  case h_2 => cases h
  case h_1 queued outgoing hreader =>
    cases result with
    | failed taken =>
      simp only at h
      split_ifs at h with htaken
      cases h
      exact .endPump hreader htaken (.inl ⟨_, rfl⟩)
    | returned incoming sent taken =>
      simp only at h
      split_ifs at h with htaken
      cases h
      refine .endPump hreader htaken.1 (.inr ⟨⟨queued, outgoing.length, sent⟩, rfl, rfl, htaken.2,
        ?_⟩)
      cases incoming with
      | none => exact .inr rfl
      | some data => exact .inl ⟨data, rfl⟩

theorem transition_of_serve {result} (h : s.serve options result = some s') : Transition s s' := by
  unfold serve at h
  split at h
  case h_2 => cases h
  case h_1 frame scope round hreader =>
    cases hresponse : hostResponse (options.handler scope) frame fun _ => result with
    | error e =>
      rw [hresponse] at h
      cases h
      exact .serviceFailed (.inl ⟨_, _, _, hreader⟩)
    | ok response =>
      rw [hresponse] at h
      cases h
      exact .respond hreader

theorem transition_of_beginExchange {request}
    (h : s.beginExchange request = some s') : Transition s s' := by
  unfold beginExchange at h
  cases hexchange : s.exchange with
  | some call => simp [hexchange] at h
  | none =>
    simp only [hexchange] at h
    split_ifs at h with hrefused <;> obtain rfl := Option.some.inj h
    · exact .refused
    · push Not at hrefused
      exact .beginExchange hexchange hrefused.2.1

theorem transition_of_proceed (h : s.proceed = some s') : Transition s s' := by
  unfold proceed at h
  split at h
  case h_1 => cases h
  case h_2 request hexchange =>
    rcases hencode : encodeFrame request with e | encoded
    · rw [hencode] at h
      cases h
      exact .giveUp hexchange (.inl rfl)
    simp only [hencode] at h
    cases hqueue : s.d.queueWrite encoded .toolRequest request.requestID with
    | error e =>
      rw [hqueue] at h
      cases h
      exact .giveUp hexchange (.inl rfl)
    | ok result =>
      obtain ⟨queued, d⟩ := result
      rw [hqueue] at h
      cases h
      obtain ⟨hroom, rfl, rfl⟩ := Dispatcher.queueWrite_eq_ok.mp hqueue
      exact .queueRequest hexchange hroom
  case h_3 request queued hexchange =>
    split_ifs at h <;> obtain rfl := Option.some.inj h
    · exact .giveUp hexchange (.inr (.inl ⟨queued, rfl⟩))
    · exact .written hexchange
  case h_4 request hexchange =>
    split_ifs at h with hfailure
    · cases h
      exact .giveUp hexchange (.inr (.inr rfl))
    split at h
    case h_1 response number hresponse hdelivered =>
      cases h
      exact .answered hexchange (not_not.mp hfailure) hresponse hdelivered
    case h_2 => cases h
  case h_5 request e hexchange =>
    cases h
    exact .abort hexchange
  case h_6 request response hexchange =>
    cases h
    exact .endExchange hexchange

theorem transition_of_cancel (h : s.cancel = some s') : Transition s s' := by
  unfold cancel at h
  split at h
  case h_1 request queued hexchange =>
    cases h
    exact .cancel hexchange (.inl ⟨queued, rfl⟩)
  case h_2 request hexchange =>
    cases h
    exact .cancel hexchange (.inr rfl)
  case h_3 => cases h

theorem transition_of_timeout {transfer : Bool} (h : s.timeout transfer = some s') :
    Transition s s' := by
  unfold timeout at h
  split at h
  case h_1 request hexchange =>
    split_ifs at h <;> obtain rfl := Option.some.inj h <;> exact .timeout hexchange
  case h_2 => cases h

/-- **Every step is one of the transitions.** -/
theorem transition_of_step {action} (h : s.step options action = some s') : Transition s s' := by
  cases action with
  | start ready =>
    cases h
    unfold start
    split_ifs with hrefused
    · exact .refused
    · rw [not_or, Bool.not_eq_true, Bool.not_eq_true] at hrefused
      exact .start ready hrefused.1 hrefused.2
  | close =>
    cases h
    exact .close
  | read => exact transition_of_read h
  | stall =>
    simp only [step] at h
    split at h
    case h_1 round hreader =>
      cases h
      exact transition_of_advance true hreader
    case h_2 => cases h
  | pump result => exact transition_of_pump h
  | serve result => exact transition_of_serve h
  | exchange request => exact transition_of_beginExchange h
  | proceed => exact transition_of_proceed h
  | cancel => exact transition_of_cancel h
  | timeout transfer => exact transition_of_timeout h

/-- **The invariant rule**: what holds of a new dispatcher and is kept by every transition holds in
every reachable state. -/
theorem Reachable.invariant {P : System → Prop} (hinitial : P System.initial)
    (hstep : ∀ s s', P s → Transition s s' → P s') {s} (hs : Reachable options s) : P s := by
  induction hs with
  | initial => exact hinitial
  | step _ h ih => exact hstep _ _ ih (transition_of_step h)

/-- What holds of the places of the reader and the end of the dispatcher. -/
structure Orderly (s : System) : Prop where
  unstarted : s.d.started = false → s.reader = .idle
  closed : s.d.closing = true → s.d.failure ≠ none
  exited : s.reader = .exited → s.d.failure ≠ none

/-- The reader has been started. -/
theorem Orderly.started {s : System} (h : s.Orderly) (hreader : s.reader ≠ .idle) :
    s.d.started = true := by
  rw [← Bool.not_eq_false]
  exact fun hstarted => hreader (h.unstarted hstarted)

/-- A move of the reader that is not its end. -/
theorem Orderly.move (h : s.Orderly) (hstarted : s'.d.started = s.d.started)
    (hclosing : s'.d.closing = s.d.closing) (hfailure : s'.d.failure = s.d.failure)
    (hreader : s.reader ≠ .idle) (hnext : s'.reader ≠ .exited) : s'.Orderly where
  unstarted := by
    rw [hstarted, h.started hreader]
    exact fun hfalse => by cases hfalse
  closed := by
    rw [hclosing, hfailure]
    exact h.closed
  exited := fun hexited => absurd hexited hnext

/-- A step of an exchange. -/
theorem Orderly.exchange (h : s.Orderly) (hreader : s'.reader = s.reader)
    (hstarted : s'.d.started = s.d.started) (hclosing : s'.d.closing = s.d.closing)
    (hfailure : s.d.failure ≠ none → s'.d.failure ≠ none) : s'.Orderly where
  unstarted := by
    rw [hstarted, hreader]
    exact h.unstarted
  closed := by
    rw [hclosing]
    exact fun hclosed => hfailure (h.closed hclosed)
  exited := by
    rw [hreader]
    exact fun hexited => hfailure (h.exited hexited)

theorem Orderly.transition (h : s.Orderly) (ht : Transition s s') : s'.Orderly := by
  have hor : ∀ (failure : Option DispatcherError) e, failure.or (some e) ≠ none := by simp
  cases ht with
  | refused => exact h
  | start ready hstarted hclosing =>
    exact ⟨(fun hfalse => by cases hfalse), h.closed, (fun hexited => by cases hexited)⟩
  | close =>
    have hclosed : s.d.close.failure ≠ none := by
      unfold Dispatcher.close
      split_ifs with hclosing
      · exact h.closed hclosing
      · exact hor _ _
    obtain ⟨closing, failure, heq⟩ := s.d.close_eq
    rw [heq] at hclosed ⊢
    exact ⟨h.unstarted, fun _ => hclosed, fun _ => hclosed⟩
  | exit hreader hclosing =>
    refine ⟨fun hstarted => ?_, h.closed, fun _ => h.closed hclosing⟩
    rw [h.unstarted hstarted] at hreader
    cases hreader
  -- a reader that runs goes on running
  | beginPump hreader | request hreader | response hreader hawaited | beginService hreader
  | respond hreader | halt hreader | turn hreader hqueued | stray hreader hqueued hfront
  | progress hreader => exact h.move rfl rfl rfl (by simp [hreader]) (by simp)
  | endPump hreader htaken hnext => exact h.move rfl rfl rfl (by simp [hreader]) hnext.ne_exited
  | consume hreader hnext => exact h.move rfl rfl rfl hreader.ne_idle hnext.ne_exited
  | serviceFailed hreader =>
    refine h.move rfl rfl rfl ?_ (by simp)
    rcases hreader with ⟨_, _, _, hreader⟩ | ⟨_, _, _, _, hreader⟩ <;> simp [hreader]
  | @queueResponse requestID encoded scope round hreader hroom =>
    refine h.move rfl rfl rfl (by simp [hreader]) ?_
    cases scope <;> simp [resume]
  | finishService hreader =>
    obtain ⟨hostActive, hostWindow, heq⟩ := s.d.finishHostServiceLocked_eq
    rw [heq]
    exact h.move rfl rfl rfl (by simp [hreader]) (by simp)
  | @complete round first rest hreader =>
    obtain ⟨hostActive, hostWindow, heq⟩ := s.d.completeWrite_eq first rest
    rw [heq]
    exact h.move rfl rfl rfl (by simp [hreader]) (by simp)
  | @fail e hreader =>
    have hfailed : (s.d.fail e).failure ≠ none := by
      unfold Dispatcher.fail
      split_ifs with hclosing
      · exact h.closed hclosing
      iterate 2 exact hor _ _
    obtain ⟨failure, hostActive, hostWindow, heq⟩ := s.d.fail_eq e
    rw [heq] at hfailed ⊢
    refine ⟨fun hstarted => ?_, fun _ => hfailed, fun _ => hfailed⟩
    rw [h.unstarted hstarted] at hreader
    cases hreader
  | beginExchange | queueRequest | giveUp | written | answered | endExchange | cancel =>
    exact h.exchange rfl rfl rfl id
  | abort => exact h.exchange rfl rfl rfl fun _ => hor _ _
  | timeout => exact h.exchange rfl rfl rfl fun _ => by simp [abandon]

theorem orderly_initial : System.initial.Orderly :=
  ⟨fun _ => rfl, (fun h => by cases h), (fun h => by cases h)⟩

theorem Reachable.orderly {s} (hs : Reachable options s) : s.Orderly :=
  hs.invariant orderly_initial fun _ _ h ht => h.transition ht

end System

end Carcer.Guest
