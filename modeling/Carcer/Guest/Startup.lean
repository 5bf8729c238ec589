import Carcer.Guest.Dispatcher

/-!
# The startup scanner

Until a guest prints its ready line, `consumeStartup` looks for that line in what the guest sends,
takes host-service frames off the stream when startup services are enabled, and keeps the rest as
a diagnostic. The line and the magic of a frame begin with the same byte and may be cut anywhere
by the reads, so the scanner holds back what may still become one of them.

## Main definitions

* `startupStep`: the scanner as a decision on the front of the stream
* `Session`: the dispatcher with a record of what the scanner has reported
* `dispatchHostService`, `consumeStartup`, `consumeFrames`, `consumeIncoming`: the functions of the
  source, run without interruption

## Main results

* `incremental_startupStep`: what the scanner decides stays decided as the buffer grows
* `startupRound_eq`: a round of `consumeStartup` follows the scanner
* `scanned_consumeFrames`: the frame parser leaves alone what the scanner has done
-/

namespace Carcer.Guest

open Carcer.Wire List

/-! ### The scanner -/

/-- What the scanner takes off the stream. -/
inductive StartupEvent
  | diagnostic (byte : UInt8)
  | request (frame : Frame)
  deriving DecidableEq

/-- What the scanner stops at. -/
inductive StartupStop
  | ready
  | failed (error : DispatcherError)
  deriving DecidableEq

/-- The decision of a round of `consumeStartup` on the startup buffer. -/
def startupStep (enabled : Bool) (data : Bytes) : Step StartupEvent StartupStop UInt8 :=
  match data with
  | [] => .wait
  | byte :: rest =>
    if readyMarker <+: data then .stop .ready (data.drop readyMarker.length)
    else if frameMagic <+: data ∧ enabled then
      match extractFrame data with
      | .error e => .stop (.failed (.framing e)) data
      | .ok (none, _) => .wait
      | .ok (some frame, buffer) =>
        if frame.messageType ≠ hostServiceRequest then .stop (.failed .beforeReady) buffer
        else .emit (.request frame) buffer
    else if data <+: readyMarker ∨ enabled ∧ data <+: frameMagic then .wait
    else .emit (.diagnostic byte) rest

theorem not_marker_of_magic {data : Bytes} (h : frameMagic <+: data) : ¬readyMarker <+: data := by
  intro hmarker
  rcases prefix_or_prefix_of_prefix h hmarker with hle | hle
  all_goals exact absurd hle (by decide)

/-- A prefix of a longer string is one of the shorter string, or goes beyond it. -/
theorem prefix_of_prefix_append {word data more : Bytes} (h : word <+: data ++ more) :
    word <+: data ∨ data <+: word :=
  prefix_or_prefix_of_prefix h (prefix_append data more)

theorem not_magicMismatch_of_prefix {data : Bytes} (h : frameMagic <+: data) :
    ¬MagicMismatch data := by
  obtain ⟨rest, rfl⟩ := h
  rw [MagicMismatch, not_not, min_eq_right (by simp), take_length, take_left]

/-- The error of `ExtractFrame` behind a whole magic is that of the header. -/
theorem extractFrame_error_append {data : Bytes} {e} (hmagic : frameMagic <+: data)
    (h : extractFrame data = .error e) (more : Bytes) : extractFrame (data ++ more) = .error e := by
  have hmatch := not_magicMismatch_of_prefix hmagic
  rcases Nat.lt_or_ge data.length frameHeaderSize with hshort | hlong
  · rw [extractFrame_short hmatch hshort] at h
    cases h
  have hmatch' := not_magicMismatch_of_prefix (hmagic.trans (prefix_append data more))
  rw [extractFrame_header hmatch hlong] at h
  rw [extractFrame_header hmatch' (by rw [length_append]; omega),
    take_append_of_le_length hlong]
  cases hdecode : decodeHeader (data.take frameHeaderSize) with
  | error e' =>
    rw [hdecode] at h
    exact h
  | ok fields =>
    rw [hdecode] at h
    simp only [bind, Except.bind, pure, Except.pure] at h
    split_ifs at h

section Step

variable {enabled : Bool} {data : Bytes}

theorem startupStep_ready (enabled : Bool) (h : readyMarker <+: data) :
    startupStep enabled data = .stop .ready (data.drop readyMarker.length) := by
  match data with
  | [] => exact absurd h (by decide)
  | byte :: rest => rw [startupStep, if_pos h]

theorem startupStep_magic (h : frameMagic <+: data) (henabled : enabled = true) :
    startupStep enabled data = match extractFrame data with
      | .error e => .stop (.failed (.framing e)) data
      | .ok (none, _) => .wait
      | .ok (some frame, buffer) =>
        if frame.messageType ≠ hostServiceRequest then .stop (.failed .beforeReady) buffer
        else .emit (.request frame) buffer := by
  have hmarker := not_marker_of_magic h
  match data with
  | [] => exact absurd h (by decide)
  | byte :: rest =>
    rw [startupStep, if_neg hmarker, if_pos ⟨h, henabled⟩]

/-- The byte in front can become neither the ready line nor a frame. -/
def Noise (enabled : Bool) (data : Bytes) : Prop :=
  data ≠ [] ∧ (¬readyMarker <+: data ∧ ¬data <+: readyMarker) ∧
    (enabled = true → ¬frameMagic <+: data ∧ ¬data <+: frameMagic)

theorem Noise.append (h : Noise enabled data) (more : Bytes) : Noise enabled (data ++ more) := by
  obtain ⟨hne, ⟨hmarker, hremains⟩, hmagic⟩ := h
  have hlonger : ∀ {word : Bytes}, ¬word <+: data → ¬data <+: word →
      ¬word <+: data ++ more ∧ ¬data ++ more <+: word := fun hword hdata =>
    ⟨fun h => (prefix_of_prefix_append h).elim hword hdata,
      fun h => hdata ((prefix_append data more).trans h)⟩
  exact ⟨by simp [hne], hlonger hmarker hremains,
    fun henabled => hlonger (hmagic henabled).1 (hmagic henabled).2⟩

theorem startupStep_noise {byte : UInt8} {rest : Bytes} (h : Noise enabled (byte :: rest)) :
    startupStep enabled (byte :: rest) = .emit (.diagnostic byte) rest := by
  obtain ⟨-, ⟨hmarker, hremains⟩, hmagic⟩ := h
  rw [startupStep, if_neg hmarker, if_neg fun hm => (hmagic hm.2).1 hm.1,
    if_neg fun hp => hp.elim hremains fun hp => (hmagic hp.1).2 hp.2]

/-- **What the scanner decides.** -/
theorem startupStep_cases (enabled : Bool) (data : Bytes) :
    startupStep enabled data = .wait ∨ readyMarker <+: data ∨
      (frameMagic <+: data ∧ enabled = true) ∨ Noise enabled data := by
  match data with
  | [] => exact .inl rfl
  | byte :: rest =>
    by_cases hmarker : readyMarker <+: byte :: rest
    · exact .inr (.inl hmarker)
    by_cases hmagic : frameMagic <+: byte :: rest ∧ enabled = true
    · exact .inr (.inr (.inl hmagic))
    by_cases hremains : byte :: rest <+: readyMarker ∨ enabled = true ∧ byte :: rest <+: frameMagic
    · left
      rw [startupStep, if_neg hmarker, if_neg hmagic, if_pos hremains]
    rw [not_or] at hremains
    exact .inr (.inr (.inr ⟨by simp, ⟨hmarker, hremains.1⟩, fun henabled =>
      ⟨fun h => hmagic ⟨h, henabled⟩, fun h => hremains.2 ⟨henabled, h⟩⟩⟩))

end Step

theorem extractStep_of_some {data buffer : Bytes} {frame}
    (h : extractFrame data = .ok (some frame, buffer)) :
    buffer.length < data.length ∧
      ∀ more, extractFrame (data ++ more) = .ok (some frame, buffer ++ more) := by
  obtain ⟨hencodable, rfl⟩ := extractFrame_eq_some.mp h
  refine ⟨?_, fun more => extractFrame_eq_some.mpr ⟨hencodable, append_assoc _ _ _⟩⟩
  rw [length_append, frame.length_bytes, frameHeaderSize]
  omega

/-- **What the scanner decides stays decided as the buffer grows.** -/
theorem incremental_startupStep (enabled : Bool) : Incremental (startupStep enabled) := by
  have hkept : ∀ data more, startupStep enabled data ≠ .wait →
      (∀ e rest, startupStep enabled data = .emit e rest →
        rest.length < data.length ∧
        startupStep enabled (data ++ more) = .emit e (rest ++ more)) ∧
      ∀ r rest, startupStep enabled data = .stop r rest →
        startupStep enabled (data ++ more) = .stop r (rest ++ more) := by
    intro data more hdecided
    rcases startupStep_cases enabled data with hwait | hmarker | ⟨hmagic, henabled⟩ | hnoise
    · exact absurd hwait hdecided
    · have hlonger := startupStep_ready enabled (hmarker.trans (prefix_append data more))
      rw [drop_append_of_le_length hmarker.length_le] at hlonger
      rw [startupStep_ready enabled hmarker, hlonger]
      simp
    · have hmagic' := hmagic.trans (prefix_append data more)
      rw [startupStep_magic hmagic henabled] at hdecided ⊢
      rw [startupStep_magic hmagic' henabled]
      cases hextract : extractFrame data with
      | error e =>
        rw [extractFrame_error_append hmagic hextract]
        simp
      | ok result =>
        obtain ⟨_ | frame, buffer⟩ := result
        · rw [hextract] at hdecided
          exact absurd rfl hdecided
        obtain ⟨hshorter, hsame⟩ := extractStep_of_some hextract
        rw [hsame]
        simp only
        split_ifs
        · simp
        · simp [hshorter]
    · match data with
      | [] => exact absurd rfl hnoise.1
      | byte :: rest =>
        have hlonger : startupStep enabled (byte :: (rest ++ more)) = _ :=
          startupStep_noise (hnoise.append more)
        rw [startupStep_noise hnoise, cons_append, hlonger]
        simp
  constructor
  case shrinking =>
    intro b e rest h
    exact ((hkept b [] (by simp [h])).1 e rest h).1
  case emit_append =>
    intro b e rest c h
    exact ((hkept b c (by simp [h])).1 e rest h).2
  case stop_append =>
    intro b r rest c h
    exact (hkept b c (by simp [h])).2 r rest h

/-! ### The functions of the source -/

/-- The frames among the events. -/
def requestsOf (events : List StartupEvent) : List Frame :=
  events.filterMap fun
    | .request frame => some frame
    | .diagnostic _ => none

/-- The dispatcher of a session, with a record of what has happened. -/
structure Session where
  d : Dispatcher
  /-- What the scanner has taken off the stream. -/
  events : List StartupEvent
  /-- The frames that the frame parser has taken off its buffer. -/
  parsed : List Frame
  /-- The queue of writes has refused a response of the startup. -/
  refused : Bool

/-- The frames of the session, in order. -/
def Session.frames (s : Session) : List Frame := requestsOf s.events ++ s.parsed

/-- The bytes that the frame parser was given: the frames that it has taken, and its buffer. -/
def Session.handed (s : Session) : Bytes := (s.parsed.map Frame.bytes).flatten ++ s.d.frameBuffer

/-- The handlers, whose result may depend on the frames of the session. -/
abbrev Handler : Type := List Frame → HostRequest → HandlerResult

section Functions

variable (options : DispatcherOptions) (handler : Handler)

def dispatchHostService (frame : Frame) (scope : Scope) (s : Session) :
    Session × Option DispatcherError :=
  let d := s.d.beginHostService
  match hostResponse (options.handler scope) frame (handler s.frames) with
  | .error e => ({ s with d := d.finishHostServiceLocked }, some e)
  | .ok (requestID, encoded) =>
    match d.queueWrite encoded .hostResponse requestID with
    | .error e =>
      ({ s with d := d.finishHostServiceLocked, refused := s.refused || scope = .startup }, some e)
    | .ok (_, d) => ({ s with d := d }, none)

/-- The error of a host service that has no response. -/
def hostError (frame : Frame) (scope : Scope) (frames : List Frame) : Option DispatcherError :=
  match hostResponse (options.handler scope) frame (handler frames) with
  | .error e => some e
  | .ok _ => none

/-- The fields of the dispatcher that belong to the scanner and the frame parser. -/
def Dispatcher.SameInput (d d' : Dispatcher) : Prop :=
  d'.ready = d.ready ∧ d'.startupBuffer = d.startupBuffer ∧ d'.frameBuffer = d.frameBuffer ∧
    d'.diagnostic = d.diagnostic

/-- **What `dispatchHostService` does**: it ends as the response does, or the queue refuses the
response. -/
theorem dispatchHostService_cases (frame : Frame) (scope : Scope) (s : Session) :
    ∃ d, s.d.SameInput d ∧
      (dispatchHostService options handler frame scope s =
          ({ s with d := d }, hostError options handler frame scope s.frames) ∨
        ∃ e, dispatchHostService options handler frame scope s =
          ({ s with d := d, refused := s.refused || scope = .startup }, some e)) := by
  have hfinish : s.d.SameInput s.d.beginHostService.finishHostServiceLocked := by
    obtain ⟨_, _, hsame⟩ := s.d.beginHostService.finishHostServiceLocked_eq
    rw [hsame]
    exact ⟨rfl, rfl, rfl, rfl⟩
  unfold dispatchHostService hostError
  cases hostResponse (options.handler scope) frame (handler s.frames) with
  | error e => exact ⟨_, hfinish, .inl rfl⟩
  | ok response =>
    simp only
    cases hqueue : s.d.beginHostService.queueWrite response.2 .hostResponse response.1 with
    | error e => exact ⟨_, hfinish, .inr ⟨e, rfl⟩⟩
    | ok queued =>
      obtain ⟨-, -, hqueued⟩ := Dispatcher.queueWrite_eq_ok.mp hqueue
      exact ⟨queued.2, hqueued ▸ ⟨rfl, rfl, rfl, rfl⟩, .inl rfl⟩

theorem dispatchHostService_sameInput {frame scope error} {s s' : Session}
    (h : dispatchHostService options handler frame scope s = (s', error)) : s.d.SameInput s'.d := by
  obtain ⟨d, hsame, hcase | ⟨e, hcase⟩⟩ := dispatchHostService_cases options handler frame scope s
  all_goals
    cases h.symm.trans hcase
    exact hsame

theorem framesRound_shrinks {d d' : Dispatcher} {round} (h : d.framesRound = (round, d'))
    (hround : (∃ frame, round = .response frame) ∨ ∃ frame scope, round = .dispatch frame scope) :
    d'.frameBuffer.length < d.frameBuffer.length := by
  have hlength : ∀ {frame : Frame} {rest : Bytes}, d.frameBuffer = frame.bytes ++ rest →
      rest.length < d.frameBuffer.length := fun {frame rest} hbuffer => by
    rw [hbuffer, length_append, frame.length_bytes, frameHeaderSize]
    omega
  rcases d.framesRound_cases with ⟨e, hcase⟩ | ⟨-, hcase⟩ | ⟨frame, rest, -, hbuffer, -, -, hcase⟩ |
    ⟨frame, rest, -, hbuffer, -, -, hcase⟩ <;> rw [hcase] at h <;> cases h
  iterate 2 simp at hround
  iterate 2 exact hlength hbuffer

def consumeFrames (s : Session) : Session × Option DispatcherError :=
  match _hround : s.d.framesRound with
  | (.done, d) => ({ s with d := d }, none)
  | (.failed e, d) => ({ s with d := d }, some e)
  | (.response frame, d) => consumeFrames { s with d := d, parsed := s.parsed ++ [frame] }
  | (.dispatch frame scope, d) =>
    match _hserve : dispatchHostService options handler frame scope
        { s with d := d, parsed := s.parsed ++ [frame] } with
    | (s', some e) => (s', some e)
    | (s', none) => consumeFrames s'
termination_by s.d.frameBuffer.length
decreasing_by
  · exact framesRound_shrinks _hround (.inl ⟨_, rfl⟩)
  · rw [(dispatchHostService_sameInput options handler _hserve).2.2.1]
    exact framesRound_shrinks _hround (.inr ⟨_, _, rfl⟩)

/-- **A round of `consumeStartup` follows the scanner.** -/
theorem startupRound_eq (d : Dispatcher) :
    d.startupRound options = match startupStep options.startupHostServices d.startupBuffer with
      | .wait => (.done, d)
      | .stop .ready rest => (.ready, d.becomeReady rest)
      | .stop (.failed e) rest => (.failed e, d.withStartup rest)
      | .emit (.diagnostic byte) rest => (.diagnostic byte, (d.addDiagnostic byte).withStartup rest)
      | .emit (.request frame) rest => (.dispatch frame, d.withStartup rest) := by
  unfold Dispatcher.startupRound startupStep
  rcases hbuffer : d.startupBuffer with _ | ⟨byte, rest⟩
  · rfl
  simp only
  split_ifs
  · rfl
  · cases extractFrame (byte :: rest) with
    | error e => simp [Dispatcher.withStartup, ← hbuffer]
    | ok result =>
      obtain ⟨_ | frame, buffer⟩ := result
      · rfl
      · simp only
        split_ifs <;> rfl
  · rfl
  · rfl

theorem startupRound_shrinks {d d' : Dispatcher} {round} (h : d.startupRound options = (round, d'))
    (hround : (∃ byte, round = .diagnostic byte) ∨ ∃ frame, round = .dispatch frame) :
    d'.startupBuffer.length < d.startupBuffer.length := by
  rw [startupRound_eq] at h
  cases hstep : startupStep options.startupHostServices d.startupBuffer with
  | wait =>
    rw [hstep] at h
    cases h
    simp at hround
  | stop reason rest =>
    rw [hstep] at h
    cases reason <;> cases h <;> simp at hround
  | emit event rest =>
    rw [hstep] at h
    cases event <;> cases h <;>
      exact (incremental_startupStep options.startupHostServices).shrinking hstep

def consumeStartup (s : Session) : Session × Option DispatcherError :=
  match _hround : s.d.startupRound options with
  | (.done, d) => ({ s with d := d }, none)
  | (.failed e, d) => ({ s with d := d }, some e)
  | (.ready, d) => consumeFrames options handler { s with d := d }
  | (.diagnostic byte, d) =>
    consumeStartup { s with d := d, events := s.events ++ [.diagnostic byte] }
  | (.dispatch frame, d) =>
    match _hserve : dispatchHostService options handler frame .startup
        { s with d := d, events := s.events ++ [.request frame] } with
    | (s', some e) => (s', some e)
    | (s', none) => consumeStartup s'
termination_by s.d.startupBuffer.length
decreasing_by
  · exact startupRound_shrinks options _hround (.inl ⟨_, rfl⟩)
  · rw [(dispatchHostService_sameInput options handler _hserve).2.1]
    exact startupRound_shrinks options _hround (.inr ⟨_, rfl⟩)

def consumeIncoming (incoming : Bytes) (s : Session) : Session × Option DispatcherError :=
  let d := s.d.receive incoming
  if s.d.ready then consumeFrames options handler { s with d := d }
  else consumeStartup options handler { s with d := d }

theorem consumeStartup_round {s : Session} {round d} (h : s.d.startupRound options = (round, d)) :
    consumeStartup options handler s = match round with
      | .done => ({ s with d := d }, none)
      | .failed e => ({ s with d := d }, some e)
      | .ready => consumeFrames options handler { s with d := d }
      | .diagnostic byte => consumeStartup options handler
          { s with d := d, events := s.events ++ [.diagnostic byte] }
      | .dispatch frame =>
        match dispatchHostService options handler frame .startup
            { s with d := d, events := s.events ++ [.request frame] } with
        | (s', some e) => (s', some e)
        | (s', none) => consumeStartup options handler s' := by
  rw [consumeStartup]
  split <;> rename_i hround <;> rw [h] at hround <;> cases hround
  iterate 4 rfl
  · simp only
    split <;> rename_i hserve <;> rw [hserve]

/-! ### The frame parser leaves the scanner alone -/

/-- What the scanner has made of the stream, with the bytes handed to the frame parser. -/
def Session.scanned (s : Session) : Bool × Bytes × List StartupEvent × Bytes × Bool :=
  (s.d.ready, s.d.diagnostic, s.events, s.handed, s.refused)

theorem scanned_framesRound {s : Session} {d round} (h : s.d.framesRound = (round, d)) :
    match round with
    | .done | .failed _ => ({ s with d := d } : Session).scanned = s.scanned
    | .response frame =>
      ({ s with d := d, parsed := s.parsed ++ [frame] } : Session).scanned = s.scanned
    | .dispatch frame scope => scope ≠ .startup ∧
      ({ s with d := d, parsed := s.parsed ++ [frame] } : Session).scanned = s.scanned := by
  rcases s.d.framesRound_cases with ⟨e, hcase⟩ | ⟨-, hcase⟩ |
    ⟨frame, rest, -, hbuffer, -, -, hcase⟩ |
    ⟨frame, rest, -, hbuffer, -, -, hcase⟩ <;> rw [hcase] at h <;> cases h
  iterate 2 rfl
  · refine ⟨by split_ifs <;> decide, ?_⟩
    simp [Session.scanned, Session.handed, hbuffer]
  · simp [Session.scanned, Session.handed, hbuffer]

theorem scanned_dispatchHostService {frame scope error} {s s' : Session} (hscope : scope ≠ .startup)
    (h : dispatchHostService options handler frame scope s = (s', error)) :
    s'.scanned = s.scanned := by
  obtain ⟨d, ⟨hready, -, hframes, hdiagnostic⟩, hcase | ⟨e, hcase⟩⟩ :=
    dispatchHostService_cases options handler frame scope s
  all_goals
    cases h.symm.trans hcase
    simp [Session.scanned, Session.handed, hready, hframes, hdiagnostic, hscope]

theorem scanned_consumeFrames (s : Session) :
    (consumeFrames options handler s).1.scanned = s.scanned := by
  fun_induction consumeFrames options handler s with
  | case1 s d hround => exact scanned_framesRound hround
  | case2 s e d hround => exact scanned_framesRound hround
  | case3 s frame d hround ih => exact ih.trans (scanned_framesRound hround)
  | case4 s frame scope d hround s' e hserve =>
    obtain ⟨hscope, hscanned⟩ := scanned_framesRound hround
    exact (scanned_dispatchHostService options handler hscope hserve).trans hscanned
  | case5 s frame scope d hround s' hserve ih =>
    obtain ⟨hscope, hscanned⟩ := scanned_framesRound hround
    exact ih.trans ((scanned_dispatchHostService options handler hscope hserve).trans hscanned)

end Functions

end Carcer.Guest
