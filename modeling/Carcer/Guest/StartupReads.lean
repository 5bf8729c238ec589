import Carcer.Guest.Startup

/-!
# Startup and the read boundaries

The reader hands the stream of the guest to `consumeIncoming` in pieces of its own choosing, and
between two reads the dispatcher changes in other ways: queued responses are written, an exchange
comes and goes. What the startup scanner makes of the stream depends on none of this, as long as the
queue of writes takes the responses of the host services that the scanner dispatches. The queue is
emptied between reads, so that whether it takes one does depend on them.

## Main definitions

* `consumeReads`: the reads of a session, with other changes of the dispatcher between them
* `StartupOutcome`: what the scanner has made of the stream
* `startupOutcome`: the same as a function of the stream alone

## Main results

* `consumeStartup_follows`: `consumeStartup` follows the scanner over its buffer, or the queue has
  refused a response
* `startup_read_boundaries`: the outcome is a function of the stream when no response is refused
* `startup_depends_on_reads`: it is not otherwise
-/

namespace Carcer.Guest

open Carcer.Wire List

/-- What the startup scanner has made of the stream. -/
structure StartupOutcome where
  /-- The ready line has been recognised. -/
  ready : Bool
  /-- The host-service frames reported before it, in order. -/
  requests : List Frame
  diagnostic : Bytes
  /-- What stands behind the ready line, or what has not been taken off the stream. -/
  remaining : Bytes
  /-- The error that has ended the startup. -/
  error : Option DispatcherError
  deriving DecidableEq

/-- The diagnostic bytes among the events, of which the source keeps the first ones. -/
def diagnosticOf (events : List StartupEvent) : Bytes :=
  (events.filterMap fun
    | .request _ => none
    | .diagnostic byte => some byte).take maxStartupDiagnosticBytes

def readStream (reads : List ((Dispatcher → Dispatcher) × Bytes)) : Bytes :=
  (reads.map Prod.snd).flatten

/-- The changes between the reads leave the input of the dispatcher alone. -/
def Harmless (reads : List ((Dispatcher → Dispatcher) × Bytes)) : Prop :=
  ∀ read ∈ reads, ∀ d : Dispatcher, d.SameInput (read.1 d)

/-- A new dispatcher that `Start` has started. -/
def Session.start : Session where
  d := { newSerialProtocolDispatcher with started := true }
  events := []
  parsed := []
  refused := false

section Reads

variable (options : DispatcherOptions) (handler : Handler)
  {reads : List ((Dispatcher → Dispatcher) × Bytes)} {s : Session}

/-- The reads of a session, each after a change of the dispatcher by something else: the session,
and, when a read fails, its error and what is left unread. -/
def consumeReads : List ((Dispatcher → Dispatcher) × Bytes) → Session →
    Session × Option DispatcherError × Bytes
  | [], s => (s, none, [])
  | (change, incoming) :: reads, s =>
    match consumeIncoming options handler incoming { s with d := change s.d } with
    | (s, none) => consumeReads reads s
    | (s, some e) => (s, some e, readStream reads)

/-- The outcome of a session; errors behind the ready line are not those of the startup. -/
def outcome (result : Session × Option DispatcherError × Bytes) : StartupOutcome where
  ready := result.1.d.ready
  requests := requestsOf result.1.events
  diagnostic := result.1.d.diagnostic
  remaining :=
    (if result.1.d.ready then result.1.handed else result.1.d.startupBuffer) ++ result.2.2
  error := if result.1.d.ready then none else result.2.1

/-! ### The outcome of a stream -/

/-- What the scanner does with an event when every response is queued. -/
def answer (event : StartupEvent) (events : List StartupEvent) :
    List StartupEvent × Option DispatcherError :=
  (events ++ [event],
    match event with
    | .diagnostic _ => none
    | .request frame => hostError options handler frame .startup (requestsOf (events ++ [event])))

/-- The scanner run over a stream, behind the events that it has reported. -/
def startupRun (stream : Bytes) (events : List StartupEvent) :
    Progress (List StartupEvent) StartupStop DispatcherError UInt8 :=
  run (startupStep options.startupHostServices) (answer options handler) stream events

/-- The error that a run of the scanner ends with. -/
def stopError : Option (StartupStop ⊕ DispatcherError) → Option DispatcherError
  | none | some (.inl .ready) => none
  | some (.inl (.failed e)) | some (.inr e) => some e

/-- The outcome of a run of the scanner. -/
def progressOutcome (p : Progress (List StartupEvent) StartupStop DispatcherError UInt8) :
    StartupOutcome where
  ready := p.stop = some (.inl .ready)
  requests := requestsOf p.state
  diagnostic := diagnosticOf p.state
  remaining := p.rest
  error := stopError p.stop

/-- The outcome as a function of the stream: the scanner run over the whole of it. -/
def startupOutcome (stream : Bytes) : StartupOutcome :=
  progressOutcome (startupRun options handler stream [])

/-! ### One read -/

/-- The session of a dispatcher that has not become ready. -/
structure Session.Starting (s : Session) : Prop where
  not_ready : s.d.ready = false
  parsed : s.parsed = []
  frameBuffer : s.d.frameBuffer = []
  diagnostic : s.d.diagnostic = diagnosticOf s.events
  not_refused : s.refused = false

/-- **The session is where the run of the scanner is**: behind the ready line, or with the same
events and the same bytes held back, and the error of the run. -/
def Follows (p : Progress (List StartupEvent) StartupStop DispatcherError UInt8)
    (result : Session × Option DispatcherError) : Prop :=
  if p.stop = some (.inl .ready) then
    result.1.scanned = (true, diagnosticOf p.state, p.state, p.rest, false)
  else result.1.Starting ∧ result.1.d.startupBuffer = p.rest ∧ result.1.events = p.state ∧
    result.2 = stopError p.stop

/-- **The queue of writes has cut the run of the scanner**, which would have reported at least
`events`. -/
structure Cut (events : List StartupEvent) (result : Session × Option DispatcherError) : Prop where
  refused : result.1.refused = true
  not_ready : result.1.d.ready = false
  failed : result.2 ≠ none
  events : result.1.events <+: events
  diagnostic : result.1.d.diagnostic = diagnosticOf result.1.events

theorem diagnosticOf_append (events : List StartupEvent) (event : StartupEvent) :
    diagnosticOf (events ++ [event]) =
      match event with
      | .request _ => diagnosticOf events
      | .diagnostic byte =>
        if (diagnosticOf events).length < maxStartupDiagnosticBytes then
          diagnosticOf events ++ [byte]
        else diagnosticOf events := by
  cases event with
  | request frame => simp [diagnosticOf]
  | diagnostic byte =>
    simp only [diagnosticOf, filterMap_append, filterMap_cons, filterMap_nil,
      length_take]
    generalize (events.filterMap fun
      | .request _ => none
      | .diagnostic byte => some byte : Bytes) = bytes
    rw [take_append]
    split_ifs with hshort
    · rw [take_of_length_le (by simp; omega) (l := [byte])]
    · rw [Nat.sub_eq_zero_of_le (by omega)]
      simp

theorem startupRun_emit {buffer rest : Bytes} {event : StartupEvent}
    (h : startupStep options.startupHostServices buffer = .emit event rest)
    (events : List StartupEvent) :
    startupRun options handler buffer events =
      match (answer options handler event events).2 with
      | none => startupRun options handler rest (events ++ [event])
      | some f => ⟨events ++ [event], rest, some (.inr f)⟩ := by
  rcases hanswer : answer options handler event events with ⟨later, _ | f⟩
  all_goals cases congrArg Prod.fst hanswer
  · exact run_emit (incremental_startupStep _).shrinking h hanswer
  · exact run_refused h hanswer

/-- Events are reported behind those that are there. -/
theorem prefix_startupRun (buffer : Bytes) (events : List StartupEvent) :
    events <+: (startupRun options handler buffer events).state := by
  refine run_induction (incremental_startupStep _).shrinking
    (motive := fun _ events p => events <+: p.state) ?_ ?_ ?_ ?_ buffer events
  · exact fun _ _ _ => prefix_rfl
  · exact fun _ _ _ _ _ => prefix_rfl
  · intro _ events e _ later f _ hact
    cases congrArg Prod.fst hact
    exact prefix_append _ _
  · intro _ events e _ later _ hact ih
    cases congrArg Prod.fst hact
    exact (prefix_append _ _).trans ih

/-- **`consumeStartup` follows the scanner over its buffer**, or the queue of writes cuts it. -/
theorem consumeStartup_follows (hs : s.Starting) :
    let p := startupRun options handler s.d.startupBuffer s.events
    Follows p (consumeStartup options handler s) ∨
      Cut p.state (consumeStartup options handler s) := by
  induction hlen : s.d.startupBuffer.length using Nat.strongRecOn generalizing s with
  | _ n ih =>
    subst hlen
    have hround := startupRound_eq options s.d
    cases hstep : startupStep options.startupHostServices s.d.startupBuffer with
    | wait =>
      rw [hstep] at hround
      rw [startupRun, run_wait hstep, consumeStartup_round options handler hround]
      exact .inl ⟨hs, rfl, rfl, rfl⟩
    | stop reason rest =>
      rw [hstep] at hround
      rw [startupRun, run_stop hstep]
      left
      cases reason with
      | ready =>
        rw [consumeStartup_round options handler hround, Follows, if_pos rfl, scanned_consumeFrames]
        simp [Session.scanned, Session.handed, Dispatcher.becomeReady, hs.parsed, hs.frameBuffer,
          hs.diagnostic, hs.not_refused]
      | failed e =>
        rw [consumeStartup_round options handler hround]
        exact ⟨⟨hs.1, hs.2, hs.3, hs.4, hs.5⟩, rfl, rfl, rfl⟩
    | emit event rest =>
      rw [hstep] at hround
      have hlt := (incremental_startupStep options.startupHostServices).shrinking hstep
      have hdiagnostic := diagnosticOf_append s.events event
      rw [startupRun_emit options handler hstep, consumeStartup_round options handler hround]
      cases event with
      | diagnostic byte =>
        have hnext : ({ s with
            d := (s.d.addDiagnostic byte).withStartup rest
            events := s.events ++ [.diagnostic byte] } : Session).Starting := by
          refine ⟨hs.1, hs.2, hs.3, ?_, hs.5⟩
          simp only [hdiagnostic, ← hs.diagnostic]
          rfl
        exact ih rest.length hlt hnext rfl
      | request frame =>
        have hfirst : Session.frames { s with
            d := s.d.withStartup rest, events := s.events ++ [.request frame] } =
            requestsOf (s.events ++ [.request frame]) := by
          simp [Session.frames, hs.parsed]
        simp only
        obtain ⟨d, ⟨hready, hbuffer, hframes, hsame⟩, hcase | ⟨e, hcase⟩⟩ :=
          dispatchHostService_cases options handler frame .startup
            { s with d := s.d.withStartup rest, events := s.events ++ [.request frame] }
        all_goals rw [hcase]
        · have hnext : ({ s with d := d, events := s.events ++ [.request frame] } :
              Session).Starting :=
            ⟨hready.trans hs.1, hs.2, hframes.trans hs.3,
              hsame.trans (hs.diagnostic.trans hdiagnostic.symm), hs.5⟩
          rw [hfirst, answer]
          cases hostError options handler frame .startup _ with
          | none =>
            have hlater := ih rest.length hlt hnext (congrArg _ hbuffer)
            rwa [show d.startupBuffer = rest from hbuffer] at hlater
          | some e => exact .inl ⟨hnext, hbuffer, rfl, rfl⟩
        · refine .inr ⟨?_, hready.trans hs.1, Option.some_ne_none _, ?_,
            hsame.trans (hs.diagnostic.trans hdiagnostic.symm)⟩
          · simp
          · cases (answer options handler (.request frame) s.events).2 with
            | none => exact prefix_startupRun options handler rest _
            | some f => exact prefix_rfl

/-! ### The reads -/

/-- The run over a longer stream continues that over the shorter one. -/
theorem startupRun_append (stream more : Bytes) (events : List StartupEvent) :
    startupRun options handler (stream ++ more) events =
      (startupRun options handler stream events).feed (startupStep options.startupHostServices)
        (answer options handler) more :=
  run_append (incremental_startupStep _) stream more events

theorem prefix_startupRun_state (stream more : Bytes) (events : List StartupEvent) :
    (startupRun options handler stream events).state <+:
      (startupRun options handler (stream ++ more) events).state := by
  rw [startupRun_append, Progress.feed]
  split
  · exact prefix_rfl
  · exact prefix_startupRun options handler _ _

theorem scanned_eq_ready {diagnostic handed : Bytes} {events : List StartupEvent} :
    s.scanned = (true, diagnostic, events, handed, false) ↔
      s.d.ready = true ∧ s.d.diagnostic = diagnostic ∧ s.events = events ∧ s.handed = handed ∧
        s.refused = false := by
  simp [Session.scanned]

theorem outcome_ready {diagnostic handed : Bytes} {events : List StartupEvent}
    (h : s.scanned = (true, diagnostic, events, handed, false)) (error : Option DispatcherError)
    (unread : Bytes) :
    outcome (s, error, unread) = ⟨true, requestsOf events, diagnostic, handed ++ unread, none⟩ ∧
      s.refused = false := by
  obtain ⟨hready, rfl, rfl, rfl, hrefused⟩ := scanned_eq_ready.mp h
  simp [outcome, hready, hrefused]

/-- Behind the ready line the scanner has nothing left to do. -/
theorem consumeReads_ready {diagnostic handed : Bytes} {events : List StartupEvent}
    (hreads : Harmless reads) (hs : s.scanned = (true, diagnostic, events, handed, false)) :
    let result := consumeReads options handler reads s
    outcome result = ⟨true, requestsOf events, diagnostic, handed ++ readStream reads, none⟩ ∧
      result.1.refused = false := by
  induction reads generalizing s handed with
  | nil => exact outcome_ready hs none []
  | cons read reads ih =>
    obtain ⟨change, incoming⟩ := read
    obtain ⟨hchange, hreads⟩ := forall_mem_cons.mp hreads
    obtain ⟨hready, hdiagnostic, hevents, hhanded, hrefused⟩ := scanned_eq_ready.mp hs
    obtain ⟨hsame, -, hframes, hkept⟩ : s.d.SameInput (change s.d) := hchange s.d
    rw [hready] at hsame
    rw [consumeReads, consumeIncoming, if_pos hsame, Dispatcher.receive, if_pos hsame]
    set s₁ : Session :=
      { s with d := { change s.d with frameBuffer := (change s.d).frameBuffer ++ incoming } }
    have hs₁ : s₁.scanned = (true, diagnostic, events, handed ++ incoming, false) := by
      refine scanned_eq_ready.mpr ⟨hsame, hkept.trans hdiagnostic, hevents, ?_, hrefused⟩
      simp [s₁, Session.handed, hframes, ← hhanded]
    rw [← scanned_consumeFrames options handler] at hs₁
    rw [show readStream ((change, incoming) :: reads) = incoming ++ readStream reads from rfl,
      ← append_assoc]
    rcases hresult : consumeFrames options handler s₁ with ⟨s', _ | e⟩ <;> rw [hresult] at hs₁
    · exact ih hreads hs₁
    · exact outcome_ready hs₁ (some e) (readStream reads)

/-- **The reads of a session follow the scanner over the stream**, or the queue of writes cuts
it. -/
theorem consumeReads_follows (hreads : Harmless reads) (hs : s.Starting) (stream : Bytes)
    (hstop : (startupRun options handler stream []).stop = none)
    (hbuffer : s.d.startupBuffer = (startupRun options handler stream []).rest)
    (hevents : s.events = (startupRun options handler stream []).state) :
    let result := consumeReads options handler reads s
    let p := startupRun options handler (stream ++ readStream reads) []
    outcome result = progressOutcome p ∧ result.1.refused = false ∨
      Cut p.state (result.1, result.2.1) := by
  induction reads generalizing s stream with
  | nil =>
    left
    simp [consumeReads, readStream, outcome, progressOutcome, hs.not_ready, hs.not_refused, hstop,
      hs.diagnostic, hbuffer, hevents, stopError]
  | cons read reads ih =>
    obtain ⟨change, incoming⟩ := read
    obtain ⟨hchange, hreads⟩ := forall_mem_cons.mp hreads
    obtain ⟨hready, hheld, hframes, hsame⟩ : s.d.SameInput (change s.d) := hchange s.d
    rw [hs.not_ready] at hready
    have hreceive : (change s.d).receive incoming =
        (change s.d).withStartup (s.d.startupBuffer ++ incoming) := by
      rw [Dispatcher.receive, if_neg (by simp [hready]), hheld, Dispatcher.withStartup]
    set s₁ : Session := { s with d := (change s.d).withStartup (s.d.startupBuffer ++ incoming) }
    have hread := consumeStartup_follows options handler (s := s₁)
      ⟨hready, hs.2, hframes.trans hs.3, hsame.trans hs.4, hs.5⟩
    -- the run over what was held back and the read is the run over the stream so far
    have hnext := startupRun_append options handler stream incoming []
    rw [Progress.feed, hstop, ← hbuffer, ← hevents] at hnext
    rw [show startupRun options handler s₁.d.startupBuffer s₁.events =
      startupRun options handler (stream ++ incoming) [] from hnext.symm] at hread
    have hmore := startupRun_append options handler (stream ++ incoming) (readStream reads) []
    rw [show readStream ((change, incoming) :: reads) = incoming ++ readStream reads from rfl,
      ← append_assoc, consumeReads, consumeIncoming, if_neg (by simp [hready]), hreceive]
    rcases hresult : consumeStartup options handler s₁ with ⟨s', error⟩
    rw [hresult] at hread
    obtain hfollows | hcut := hread
    · rw [Follows] at hfollows
      split_ifs at hfollows with hline
      · rw [Progress.feed, hline] at hmore
        simp only [hmore, progressOutcome, stopError, decide_true]
        cases error with
        | none => exact .inl (consumeReads_ready options handler hreads hfollows)
        | some e => exact .inl (outcome_ready hfollows (some e) (readStream reads))
      obtain ⟨hs', hbuffer', hevents', herror⟩ :
        s'.Starting ∧ s'.d.startupBuffer = _ ∧ s'.events = _ ∧ error = _ := hfollows
      cases hend : (startupRun options handler (stream ++ incoming) []).stop with
      | none =>
        rw [hend] at herror
        obtain rfl : error = none := herror
        exact ih hreads hs' _ hend hbuffer' hevents'
      | some reason =>
        obtain ⟨e, he⟩ : ∃ e, stopError (some reason) = some e := by
          rw [hend] at hline
          rcases reason with (_ | e) | e
          · exact absurd rfl hline
          all_goals exact ⟨e, rfl⟩
        obtain rfl : error = some e := by rw [herror, hend, he]
        rw [Progress.feed, hend] at hmore
        rw [hend] at hline
        simp only [hmore]
        left
        simp [outcome, progressOutcome, hs'.not_ready, hs'.not_refused, hs'.diagnostic, hbuffer',
          hevents', hline, he]
    · obtain ⟨e, rfl⟩ := Option.ne_none_iff_exists'.mp hcut.failed
      exact .inr { hcut with
        events := hcut.events.trans (prefix_startupRun_state options handler _ _ _) }

/-- **The startup does not depend on the read boundaries** as long as the queue of writes takes
every response of the startup. Cut into any reads, with any other changes of the dispatcher in
between, the stream leads to the outcome of the scanner over the whole of it: the ready line at the
same position, the same frames reported in the same order, the same diagnostic, the same bytes
handed to the frame parser, and the same error. A response that is refused ends the startup
there. -/
theorem startup_read_boundaries (hreads : Harmless reads) :
    let result := consumeReads options handler reads .start
    let whole := startupOutcome options handler (readStream reads)
    (result.1.refused = false → outcome result = whole) ∧
      (result.1.refused = true →
        (outcome result).ready = false ∧ (outcome result).error ≠ none ∧
        (outcome result).requests <+: whole.requests ∧
        (outcome result).diagnostic <+: whole.diagnostic) := by
  have hstart : Session.start.Starting := ⟨rfl, rfl, rfl, rfl, rfl⟩
  obtain ⟨houtcome, hrefused⟩ | hcut :=
    consumeReads_follows options handler hreads hstart [] rfl rfl rfl
  · exact ⟨fun _ => houtcome, fun h => by simp [hrefused] at h⟩
  · obtain ⟨hrefused, hready, hfailed, hevents, hdiagnostic⟩ := hcut
    simp only at hrefused hready hfailed hdiagnostic
    refine ⟨fun h => by simp [hrefused] at h, fun _ => ⟨hready, ?_, hevents.filterMap _, ?_⟩⟩
    · simpa only [outcome, hready, Bool.false_eq_true, if_false] using hfailed
    · rw [outcome, hdiagnostic]
      exact (hevents.filterMap _).take _

end Reads

/-! ### More responses than the queue holds -/

/-- The first queued response is sent. -/
def sendFirst (d : Dispatcher) : Dispatcher :=
  match d.writes with
  | [] => d
  | queued :: _ =>
    (d.advanceWrite queued.id (queued.data.length - queued.offset) false).toOption.getD d

theorem sendFirst_sameInput (d : Dispatcher) : d.SameInput (sendFirst d) := by
  unfold sendFirst
  split
  · exact ⟨rfl, rfl, rfl, rfl⟩
  · rename_i first rest hwrites
    rcases Dispatcher.advanceWrite_front hwrites (first.data.length - first.offset) false with
      hcase | ⟨-, hcase⟩ | ⟨-, hcase⟩ <;> rw [hcase]
    iterate 2 exact ⟨rfl, rfl, rfl, rfl⟩
    obtain ⟨_, _, hcomplete⟩ := d.completeWrite_eq first rest
    rw [hcomplete]
    exact ⟨rfl, rfl, rfl, rfl⟩

/-- Nine requests for a host service and the ready line. -/
def nineRequests : Bytes :=
  ((List.range 9).flatMap fun i =>
    Frame.bytes ⟨hostServiceRequest, UInt32.ofNat (i + 1), [1, 0, 0x61, 0, 0]⟩) ++ readyMarker

/-- The stream in two reads; a response to the requests of the first one is sent in between. -/
def twoReads : List ((Dispatcher → Dispatcher) × Bytes) :=
  [(id, nineRequests.take 100), (sendFirst, nineRequests.drop 100)]

theorem harmless_twoReads : Harmless twoReads :=
  forall_mem_cons.mpr ⟨fun _ => ⟨rfl, rfl, rfl, rfl⟩,
    forall_mem_singleton.mpr sendFirst_sameInput⟩

theorem startup_read_boundaries_two :
    Harmless twoReads ∧
      outcome (consumeReads ⟨true, false, false⟩ (fun _ _ => .error []) twoReads .start) =
        startupOutcome ⟨true, false, false⟩ (fun _ _ => .error []) nineRequests :=
  ⟨harmless_twoReads, (startup_read_boundaries _ _ harmless_twoReads).1 (by decide +kernel)⟩

/-- **The same stream in one read does not get to the ready line**: the queue holds eight
responses. -/
theorem startup_depends_on_reads :
    readStream twoReads = readStream [(id, nineRequests)] ∧ Harmless twoReads ∧
      (outcome (consumeReads ⟨true, false, false⟩ (fun _ _ => .error []) twoReads .start)).ready =
        true ∧
      outcome (consumeReads ⟨true, false, false⟩ (fun _ _ => .error [])
        [(id, nineRequests)] .start) =
        ⟨false, (List.range 9).map fun i =>
          ⟨hostServiceRequest, UInt32.ofNat (i + 1), [1, 0, 0x61, 0, 0]⟩, [], readyMarker,
          some .queueFull⟩ :=
  ⟨by decide +kernel, harmless_twoReads, by decide +kernel, by decide +kernel⟩

end Carcer.Guest
