import Carcer.Guest.DispatcherSteps

/-!
# The exchanges

An exchange registers the response that it expects, queues its request, and waits until the reader
has put the response into a slot of the dispatcher. The slot is shared: the reader fills it, the
exchange takes the response out of it, and a deferred section clears it before the next exchange can
begin. An exchange that gives up after its request was queued fails the dispatcher, so that a late
response cannot be taken for that of another request.

## Main definitions

* `Answers`: the response that a request expects
* `ExchangeView`: what a system holds of its exchanges and of their record
* `ExchangeView.Ok`: the invariant of the exchanges
* `System.Outstanding`: a response that the exchange in progress waits for

## Main results

* `System.Transition.failed`: a dispatcher that has failed stays so
* `System.Doomed.run`: once the reader has found an error, the dispatcher fails
* `exchange_safety`: what the exchanges return, and when the dispatcher fails
-/

namespace Carcer.Guest

open Carcer.Wire List Option

/-- The response is one that the request expects. -/
def Answers (request response : Frame) : Prop :=
  response.requestID = request.requestID ∧ response.messageType = request.messageType ||| 0x8000

/-- The number of the response that an exchange returned, among the frames of the guest. -/
def ExchangeEvent.number : ExchangeEvent → Option ℕ
  | .returned _ _ number => some number
  | .abandoned _ => none

/-- The slot of the response, the exchange in progress, and the record of the exchanges. -/
structure ExchangeView where
  pendingResponse : Bool
  pendingRequestID : UInt32
  pendingResponseType : UInt16
  response : Option Frame
  failed : Bool
  exchange : Option ExchangeCall
  extracted : List Frame
  delivered : Option ℕ
  log : List ExchangeEvent

/-- The exchanges of a system. -/
def System.exchangeView (s : System) : ExchangeView :=
  ⟨s.d.pendingResponse, s.d.pendingRequestID, s.d.pendingResponseType, s.d.response,
    s.d.failure.isSome, s.exchange, s.extracted, s.delivered, s.log⟩

namespace ExchangeView

/-- **The invariant of the exchanges.** -/
structure Ok (v : ExchangeView) : Prop where
  /-- Between two exchanges the slot is empty and nothing is expected. -/
  idle : v.exchange = none → v.pendingResponse = false ∧ v.response = none ∧ v.delivered = none
  expected : ∀ call ∈ v.exchange, v.pendingRequestID = call.request.requestID ∧
    v.pendingResponseType = call.request.messageType ||| 0x8000
  response : ∀ frame ∈ v.response, ∀ number ∈ v.delivered, v.extracted[number]? = some frame ∧
    frame.requestID = v.pendingRequestID ∧ frame.messageType = v.pendingResponseType
  /-- No exchange has returned the response in the slot, or one that came after it. -/
  newer : ∀ number ∈ v.delivered, ∀ older ∈ v.log.filterMap ExchangeEvent.number, older < number
  returning : ∀ request frame number,
    v.exchange = some ⟨request, .returning (some (frame, number))⟩ →
      v.response = some frame ∧ v.delivered = some number ∧ ∀ request, .abandoned request ∉ v.log
  returned : ∀ request response number, .returned request response number ∈ v.log →
    Answers request response ∧ v.extracted[number]? = some response
  increasing : (v.log.filterMap ExchangeEvent.number).Pairwise (· < ·)
  abandoned : ∀ request, .abandoned request ∈ v.log →
    v.failed = true ∨ ∃ e, v.exchange = some ⟨request, .aborting e⟩
  final : v.log.Pairwise fun first later => first.number = none → later.number = none

variable {v : ExchangeView} {number : ℕ} {request : Frame} {place : ExchangePlace}

section

variable (h : v.Ok)
include h

/-- The dispatcher fails, or it has failed. -/
theorem Ok.fail {failed : Bool} (hfailed : v.failed → failed) :
    ({ v with failed := failed } : ExchangeView).Ok where
  __ := h
  abandoned := fun request hmem => (h.abandoned request hmem).imp_left hfailed

/-- A frame that is no response is taken off the stream. -/
theorem Ok.extract (frame : Frame) :
    ({ v with extracted := v.extracted ++ [frame] } : ExchangeView).Ok where
  __ := h
  response := by
    intro response hresponse number hnumber
    obtain ⟨hextracted, hmatch⟩ := h.response response hresponse number hnumber
    exact ⟨by grind, hmatch⟩
  returned := by
    intro request response number hmem
    obtain ⟨hanswers, hextracted⟩ := h.returned request response number hmem
    exact ⟨hanswers, by grind⟩

/-- A returned response has been taken off the stream. -/
theorem Ok.number_lt
    (hmem : number ∈ v.log.filterMap ExchangeEvent.number) : number < v.extracted.length := by
  obtain ⟨event, hevent, hnumber⟩ := mem_filterMap.mp hmem
  cases event with
  | returned request response number' =>
    obtain rfl : number' = number := Option.some.inj hnumber
    exact (List.getElem?_eq_some_iff.mp (h.returned request response number' hevent).2).1
  | abandoned request => cases hnumber

/-- The awaited response is taken off the stream and put into the slot. -/
theorem Ok.deliver {frame : Frame} (hpending : v.pendingResponse = true)
    (hempty : v.response = none) (hid : frame.requestID = v.pendingRequestID)
    (htype : frame.messageType = v.pendingResponseType) :
    ({ v with
      pendingResponse := false
      response := some frame
      extracted := v.extracted ++ [frame]
      delivered := some v.extracted.length } : ExchangeView).Ok where
  __ := h
  idle := by
    intro hidle
    rw [(h.idle hidle).1] at hpending
    cases hpending
  response := by
    intro response hresponse number hnumber
    cases hresponse
    cases hnumber
    exact ⟨by simp, hid, htype⟩
  newer := by
    intro number hnumber older holder
    cases hnumber
    exact h.number_lt holder
  returning := by
    intro request response number hreturning
    rw [(h.returning request response number hreturning).1] at hempty
    cases hempty
  returned := by
    intro request response number hmem
    obtain ⟨hanswers, hextracted⟩ := h.returned request response number hmem
    exact ⟨hanswers, by grind⟩

/-- The response that is expected stays the same while the exchange goes on. -/
theorem Ok.expected_at (hexchange : v.exchange = some ⟨request, place⟩) (place' : ExchangePlace) :
    ∀ call ∈ some (⟨request, place'⟩ : ExchangeCall),
      v.pendingRequestID = call.request.requestID ∧
      v.pendingResponseType = call.request.messageType ||| 0x8000 := by
  intro call hcall
  obtain rfl : (⟨request, place'⟩ : ExchangeCall) = call := Option.some.inj hcall
  exact h.expected ⟨request, place⟩ hexchange

/-- Once an exchange that gave up is through with `abortExchange`, the dispatcher has failed. -/
theorem Ok.failed_of_abandoned (hexchange : ∀ request e, v.exchange ≠ some ⟨request, .aborting e⟩)
    (hmem : .abandoned request ∈ v.log) : v.failed = true := by
  refine (h.abandoned request hmem).resolve_right ?_
  rintro ⟨e, haborting⟩
  exact hexchange request e haborting

theorem Ok.not_abandoned (hfailed : v.failed = false)
    (hexchange : ∀ request e, v.exchange ≠ some ⟨request, .aborting e⟩) (request : Frame) :
    .abandoned request ∉ v.log := by
  intro hmem
  rw [h.failed_of_abandoned hexchange hmem] at hfailed
  cases hfailed

/-- An exchange begins. -/
theorem Ok.begin (hexchange : v.exchange = none) (hfailed : v.failed = false) (request : Frame) :
    ({ v with
      pendingResponse := true
      pendingRequestID := request.requestID
      pendingResponseType := request.messageType ||| 0x8000
      response := none
      exchange := some ⟨request, .queueing⟩
      delivered := none } : ExchangeView).Ok where
  __ := h
  idle := fun hidle => by cases hidle
  expected := by
    intro call hcall
    cases hcall
    exact ⟨rfl, rfl⟩
  response := fun _ hresponse => by cases hresponse
  newer := fun _ hnumber => by cases hnumber
  returning := fun _ _ _ hreturning => by cases hreturning
  abandoned := by
    intro abandoned hmem
    exact absurd hmem (h.not_abandoned hfailed (by simp [hexchange]) abandoned)

theorem Ok.proceed {place place'}
    (hexchange : v.exchange = some ⟨request, place⟩) (hplace : ∀ e, place ≠ .aborting e)
    (hplace' : ∀ response, place' ≠ .returning (some response)) :
    ({ v with exchange := some ⟨request, place'⟩ } : ExchangeView).Ok where
  __ := h
  idle := fun hidle => by cases hidle
  expected := h.expected_at hexchange place'
  returning := by
    intro request' frame number hreturning
    cases hreturning
    exact absurd rfl (hplace' _)
  abandoned := fun _ hmem => .inl (h.failed_of_abandoned (by simp [hexchange, hplace]) hmem)

/-- The exchange takes the response out of the slot. -/
theorem Ok.answer {request response}
    (hexchange : v.exchange = some ⟨request, .receiving⟩) (hfailed : v.failed = false)
    (hresponse : v.response = some response) (hdelivered : v.delivered = some number) :
    ({ v with exchange := some ⟨request, .returning (some (response, number))⟩ } :
      ExchangeView).Ok where
  __ := h
  idle := fun hidle => by cases hidle
  expected := h.expected_at hexchange _
  returning := by
    intro request' frame number' hreturning
    cases hreturning
    exact ⟨hresponse, hdelivered, h.not_abandoned hfailed (by simp [hexchange])⟩
  abandoned := fun _ hmem => .inl (h.failed_of_abandoned (by simp [hexchange]) hmem)

/-- The exchange fails the dispatcher on its way out. -/
theorem Ok.abort (hexchange : v.exchange = some ⟨request, place⟩) :
    ({ v with failed := true, exchange := some ⟨request, .returning none⟩ } : ExchangeView).Ok where
  __ := h
  idle := fun hidle => by cases hidle
  expected := h.expected_at hexchange _
  returning := fun _ _ _ hreturning => by cases hreturning
  abandoned := fun _ _ => .inl rfl

/-- The exchange finds its context cancelled or its deadline passed. -/
theorem Ok.abandon (hexchange : v.exchange = some ⟨request, place⟩)
    (hplace : ∀ e, place ≠ .aborting e) (e : DispatcherError) :
    ({ v with
      exchange := some ⟨request, .aborting e⟩
      log := v.log ++ [.abandoned request] } : ExchangeView).Ok where
  __ := h
  idle := fun hidle => by cases hidle
  expected := h.expected_at hexchange _
  newer := by
    intro number hnumber older holder
    exact h.newer number hnumber older (by simpa [ExchangeEvent.number] using holder)
  returning := fun _ _ _ hreturning => by cases hreturning
  returned := by
    intro request' response number hmem
    exact h.returned request' response number (by simpa using hmem)
  increasing := by
    rw [filterMap_append]
    simpa [filterMap_cons, ExchangeEvent.number] using h.increasing
  abandoned := by
    intro abandoned hmem
    rcases mem_append.mp hmem with hmem | hmem
    · exact .inl (h.failed_of_abandoned (by simp [hexchange, hplace]) hmem)
    · obtain rfl : abandoned = request := by simpa using hmem
      exact .inr ⟨e, rfl⟩
  final := by
    refine pairwise_append.mpr ⟨h.final, pairwise_singleton _ _, ?_⟩
    intro first _ later hlater _
    obtain rfl := mem_singleton.mp hlater
    rfl

/-- The deferred section of an exchange that returns an error. -/
theorem Ok.clear
    (hexchange : v.exchange = some ⟨request, place⟩) (hplace : ∀ e, place ≠ .aborting e) :
    ({ v with
      pendingResponse := false
      response := none
      exchange := none
      delivered := none } : ExchangeView).Ok where
  __ := h
  idle := fun _ => ⟨rfl, rfl, rfl⟩
  expected := fun _ hcall => by cases hcall
  response := fun _ hresponse => by cases hresponse
  newer := fun _ hnumber => by cases hnumber
  returning := fun _ _ _ hreturning => by cases hreturning
  abandoned := fun _ hmem => .inl (h.failed_of_abandoned (by simp [hexchange, hplace]) hmem)

/-- The deferred section of an exchange that returns a response. -/
theorem Ok.record {request response}
    (hexchange : v.exchange = some ⟨request, .returning (some (response, number))⟩) :
    ({ v with
      pendingResponse := false
      response := none
      exchange := none
      delivered := none
      log := v.log ++ [.returned request response number] } : ExchangeView).Ok := by
  obtain ⟨hresponse, hdelivered, hnone⟩ := h.returning _ _ _ hexchange
  obtain ⟨hextracted, hid, htype⟩ := h.response _ hresponse _ hdelivered
  obtain ⟨hid', htype'⟩ := h.expected _ hexchange
  have hclear := h.clear hexchange (by simp)
  refine ⟨hclear.idle, hclear.expected, hclear.response, (fun _ hnumber => by cases hnumber),
    (fun _ _ _ hreturning => by cases hreturning), ?_, ?_, ?_, ?_⟩
  · intro request' response' number' hmem
    rcases mem_append.mp hmem with hmem | hmem
    · exact h.returned request' response' number' hmem
    · cases mem_singleton.mp hmem
      exact ⟨⟨hid.trans hid', htype.trans htype'⟩, hextracted⟩
  · rw [filterMap_append]
    refine pairwise_append.mpr ⟨h.increasing, pairwise_singleton _ _, ?_⟩
    intro older holder number' hnumber
    obtain rfl : number' = number := mem_singleton.mp hnumber
    exact h.newer number' hdelivered older holder
  · intro abandoned hmem
    exact absurd (by simpa using hmem) (hnone abandoned)
  · refine pairwise_append.mpr ⟨h.final, pairwise_singleton _ _, ?_⟩
    intro first hfirst later _ hfirst'
    cases first with
    | returned => cases hfirst'
    | abandoned abandoned => exact absurd hfirst (hnone abandoned)

end

end ExchangeView

namespace System

variable {s s' : System} {options : DispatcherOptions} {e : DispatcherError}

/-- **A dispatcher that has failed stays failed.** -/
theorem Transition.failed (ht : Transition s s') (h : s.d.failure ≠ none) :
    s'.d.failure ≠ none := by
  cases ht with
  | close =>
    unfold Dispatcher.close
    split_ifs
    · exact h
    · simp
  | finishService =>
    obtain ⟨hostActive, hostWindow, heq⟩ := s.d.finishHostServiceLocked_eq
    rw [heq]
    exact h
  | @complete round first rest =>
    obtain ⟨hostActive, hostWindow, heq⟩ := s.d.completeWrite_eq first rest
    rw [heq]
    exact h
  | fail =>
    unfold Dispatcher.fail
    split_ifs
    · exact h
    · simp
    · simp
  | abort => simp [Dispatcher.abortExchange]
  | timeout => simp [abandon]
  | _ => exact h

theorem exchangeOk_keep (h : s.exchangeView.Ok) (ht : Transition s s')
    (hview : s'.exchangeView = { s.exchangeView with failed := s'.d.failure.isSome }) :
    s'.exchangeView.Ok := by
  rw [hview]
  refine h.fail fun hsome => ?_
  rw [isSome_iff_ne_none]
  exact ht.failed (isSome_iff_ne_none.mp hsome)

/-- **Every transition keeps the invariant of the exchanges.** -/
theorem exchangeOk_transition (h : s.exchangeView.Ok) (ht : Transition s s') :
    s'.exchangeView.Ok := by
  have hkeep := exchangeOk_keep h ht
  cases ht with
  -- the exchange stays at its place
  | refused | start | exit | beginPump | endPump | consume | beginService | respond
  | serviceFailed | queueResponse | halt | turn | stray | progress => exact h
  | close =>
    obtain ⟨closing, failure, heq⟩ := s.d.close_eq
    rw [heq] at hkeep ⊢
    exact hkeep rfl
  | @request round frame scope rest hreader => exact h.extract frame
  | response hreader hawaited =>
    exact h.deliver hawaited.pending hawaited.unanswered hawaited.requestID hawaited.messageType
  | finishService =>
    obtain ⟨hostActive, hostWindow, heq⟩ := s.d.finishHostServiceLocked_eq
    rw [heq]
    exact h
  | @complete round first rest =>
    obtain ⟨hostActive, hostWindow, heq⟩ := s.d.completeWrite_eq first rest
    rw [heq]
    exact h
  | @fail e hreader =>
    obtain ⟨failure, hostActive, hostWindow, heq⟩ := s.d.fail_eq e
    rw [heq] at hkeep ⊢
    exact hkeep rfl
  | @beginExchange request hexchange hfailure =>
    exact h.begin hexchange (by simp [exchangeView, hfailure]) request
  | queueRequest hexchange | written hexchange => exact h.proceed hexchange (by simp) (by simp)
  | giveUp hexchange hplace =>
    refine h.proceed hexchange ?_ (by simp)
    rcases hplace with rfl | ⟨queued, rfl⟩ | rfl <;> simp
  | answered hexchange hfailure hresponse hdelivered =>
    exact h.answer hexchange (by simp [exchangeView, hfailure]) hresponse hdelivered
  | @abort request e hexchange =>
    have hfailed : (s.d.abortExchange e).failure.isSome = true := by
      simp [Dispatcher.abortExchange]
    have := h.abort hexchange
    rw [← hfailed] at this
    exact this
  | @endExchange request response hexchange =>
    cases response with
    | none =>
      rw [map_none, toList_none, append_nil]
      exact h.clear hexchange (by simp)
    | some response => exact h.record hexchange
  | cancel hexchange hplace =>
    refine h.abandon hexchange ?_ _
    rcases hplace with ⟨queued, rfl⟩ | rfl <;> simp
  | @timeout request error hexchange =>
    have hfailed : ({ s.d with failure := some error } : Dispatcher).failure.isSome = true := rfl
    exact (h.abandon hexchange (by simp) error).fail fun _ => hfailed

theorem Reachable.exchangeOk {s} (hs : Reachable options s) : s.exchangeView.Ok := by
  have hinitial : System.initial.exchangeView.Ok :=
    ⟨fun _ => ⟨rfl, rfl, rfl⟩, (fun _ h => by cases h), (fun _ h => by cases h),
      (fun _ h => by cases h), (fun _ _ _ h => by cases h), (fun _ _ _ h => by cases h),
      List.Pairwise.nil, (fun _ h => by cases h), List.Pairwise.nil⟩
  exact hs.invariant (P := fun s => s.exchangeView.Ok) hinitial fun _ _ => exchangeOk_transition

/-! ### The failed dispatcher -/

/-- The dispatcher has failed, or the reader is about to call `fail`. -/
def Doomed (e : DispatcherError) (s : System) : Prop :=
  s.d.failure ≠ none ∨ s.reader = .failing e

/-- No other goroutine moves the reader. -/
theorem Transition.failing (ht : Transition s s') (horderly : s.Orderly)
    (h : s.reader = .failing e) : s'.reader = .failing e ∨ s'.reader = .exited := by
  cases ht with
  | start ready hstarted hclosing =>
    rw [horderly.unstarted hstarted] at h
    cases h
  | exit | fail => exact .inr rfl
  | consume hreader =>
    rw [h] at hreader
    rcases hreader with ⟨data, hdata⟩ | hstartup | hframes
    · cases hdata
    · cases hstartup
    · cases hframes
  | serviceFailed hreader =>
    rw [h] at hreader
    rcases hreader with ⟨frame, scope, round, hserving⟩ | ⟨id, encoded, scope, round, hresponding⟩
    · cases hserving
    · cases hresponding
  | _ => first
    | exact .inl h
    | simp_all

theorem Doomed.transition (h : s.Doomed e)
    (horderly : s.Orderly) (ht : Transition s s') : s'.Doomed e := by
  rcases h with hfailed | hreader
  · exact .inl (ht.failed hfailed)
  rcases ht.failing horderly hreader with hreader | hexited
  · exact .inr hreader
  · exact .inl ((horderly.transition ht).exited hexited)

/-- **Whatever the other goroutines do, the dispatcher of a reader that has found an error stays on
its way to fail.** -/
theorem Doomed.run {actions} (h : s.Doomed e) (horderly : s.Orderly)
    (hrun : System.run options actions s = some s') : s'.Doomed e ∧ s'.Orderly := by
  induction actions generalizing s with
  | nil =>
    cases hrun
    exact ⟨h, horderly⟩
  | cons action actions ih =>
    rw [System.run, foldlM_cons, bind_eq_bind, bind_eq_some_iff] at hrun
    obtain ⟨s₁, hstep, hrun⟩ := hrun
    have ht := transition_of_step hstep
    exact ih (h.transition horderly ht) (horderly.transition ht) hrun

/-- When the reader takes its next step, the dispatcher has failed. -/
theorem Doomed.read (h : s.Doomed e) (horderly : s.Orderly) (hread : s.read options = some s') :
    s'.d.failure ≠ none := by
  have ht := transition_of_read hread
  rcases h with hfailed | hreader
  · exact ht.failed hfailed
  simp only [System.read, hreader] at hread
  cases hread
  exact (horderly.transition ht).exited rfl

/-! ### Responses that nothing waits for -/

/-- The exchange in progress has not been answered, and the response is one that it expects. -/
def Outstanding (s : System) (messageType : UInt16) (requestID : UInt32) : Prop :=
  ∃ call, s.exchange = some call ∧ s.d.response = none ∧ requestID = call.request.requestID ∧
    messageType = call.request.messageType ||| 0x8000

theorem outstanding_of_awaited {s : System} (h : s.exchangeView.Ok) {messageType : UInt16}
    {requestID : UInt32} (hawaited : s.d.Awaited messageType requestID) :
    s.Outstanding messageType requestID := by
  cases hexchange : s.exchange with
  | none =>
    have hnone : s.d.pendingResponse = false := (h.idle hexchange).1
    rw [hawaited.pending] at hnone
    cases hnone
  | some call =>
    obtain ⟨hid, htype⟩ := h.expected call hexchange
    exact ⟨call, hexchange, hawaited.unanswered, hawaited.requestID.trans hid,
      hawaited.messageType.trans htype⟩

/-- The reader finds the error of a response that nothing waits for. -/
theorem read_stray {s : System} (h : s.exchangeView.Ok) {round}
    (hreader : s.reader = .frames round) {messageType : UInt16} {requestID : UInt32}
    {payloadLength : ℕ} (hlong : frameHeaderSize ≤ s.d.frameBuffer.length)
    (hdecode : decodeHeader (s.d.frameBuffer.take frameHeaderSize) =
      .ok (messageType, requestID, payloadLength))
    (htype : messageType ≠ hostServiceRequest) (hstray : ¬s.Outstanding messageType requestID)
    (options : DispatcherOptions) : ∃ e, s.read options = some { s with reader := .failing e } := by
  have hround : ∃ e, s.d.framesRound = (.failed e, s.d) := by
    unfold Dispatcher.framesRound
    cases hfailure : s.d.failure with
    | some e => exact ⟨e, rfl⟩
    | none =>
      cases htrack : s.d.trackReceiveLocked with
      | error e => exact ⟨e, rfl⟩
      | ok _ =>
        rcases (Dispatcher.trackReceiveLocked_eq_ok hlong hdecode).mp htrack with
          ⟨hservice, -⟩ | ⟨-, hawaited⟩
        · exact absurd hservice htype
        · exact absurd (outstanding_of_awaited h hawaited) hstray
  obtain ⟨e, hround⟩ := hround
  refine ⟨e, ?_⟩
  simp only [read, hreader, hround]

end System

/-- **The safety of the exchanges.** In every reachable state:

* a response that an exchange has returned is a frame of the guest, with the request ID and the
  message type that the request expects;
* the exchanges return frames of the guest in the order in which they arrived, each at most once;
* a response that the exchange in progress does not wait for makes the reader stop with an error,
  and in every run from there the dispatcher has failed, or fails with the next step of the reader;
* when an exchange has given up after its request was queued, cancelled or timed out, the dispatcher
  has failed, or the exchange is about to fail it before it returns, and no exchange returns a
  response afterwards. -/
theorem exchange_safety {options : DispatcherOptions} {s : System}
    (hs : System.Reachable options s) :
    (∀ request response number, .returned request response number ∈ s.log →
      Answers request response ∧ s.extracted[number]? = some response) ∧
    (s.log.filterMap ExchangeEvent.number).Pairwise (· < ·) ∧
    (∀ round messageType requestID payloadLength, s.reader = .frames round →
      frameHeaderSize ≤ s.d.frameBuffer.length →
      decodeHeader (s.d.frameBuffer.take frameHeaderSize) =
        .ok (messageType, requestID, payloadLength) →
      messageType ≠ hostServiceRequest → ¬s.Outstanding messageType requestID →
      ∃ s₁, s.step options .read = some s₁ ∧
        ∀ actions s', System.run options actions s₁ = some s' →
          s'.d.failure ≠ none ∨ ∃ s'', s'.step options .read = some s'' ∧ s''.d.failure ≠ none) ∧
    (∀ before request after, s.log = before ++ .abandoned request :: after →
      (s.d.failure ≠ none ∨ ∃ e, s.exchange = some ⟨request, .aborting e⟩) ∧
      ∀ request' response number, .returned request' response number ∉ after) := by
  have hok := hs.exchangeOk
  refine ⟨hok.returned, hok.increasing, ?_, ?_⟩
  · intro round messageType requestID payloadLength hreader hlong hdecode htype hstray
    obtain ⟨e, hread⟩ := System.read_stray hok hreader hlong hdecode htype hstray options
    refine ⟨_, hread, fun actions s' hrun => ?_⟩
    have horderly := hs.orderly.transition (System.transition_of_read hread)
    obtain ⟨hdoomed, horderly'⟩ := System.Doomed.run (e := e) (.inr rfl) horderly hrun
    rcases id hdoomed with hfailed | hfailing
    · exact .inl hfailed
    have hstep : s'.step options .read = some { s' with d := s'.d.fail e, reader := .exited } := by
      simp only [System.step, System.read, hfailing]
    exact .inr ⟨_, hstep, hdoomed.read horderly' hstep⟩
  · intro before request after hlog
    have hmem : .abandoned request ∈ s.log := by simp [hlog]
    refine ⟨(hok.abandoned request hmem).imp_left isSome_iff_ne_none.mp, ?_⟩
    have hfinal : s.log.Pairwise fun first later => first.number = none → later.number = none :=
      hok.final
    rw [hlog] at hfinal
    intro request' response number hreturned
    have hnone := rel_of_pairwise_cons (pairwise_append.mp hfinal).2.1 hreturned rfl
    cases hnone

/-- An exchange returns its response, and the next one is cancelled when its request is queued. -/
def cancelledExchange : List Action :=
  [.start true, .exchange ⟨0x0002, 7, []⟩, .proceed, .read, .pump (.returned none 16 16), .read,
    .proceed, .read, .pump (.returned (some (⟨0x8002, 7, []⟩ : Frame).bytes) 0 0), .read, .read,
    .proceed, .proceed, .exchange ⟨0x0002, 8, []⟩, .proceed, .cancel, .proceed]

theorem exchange_safety_cancelled : ∃ s,
    System.run ⟨false, false, false⟩ cancelledExchange System.initial = some s ∧
    s.log = [.returned ⟨0x0002, 7, []⟩ ⟨0x8002, 7, []⟩ 0, .abandoned ⟨0x0002, 8, []⟩] ∧
    Answers ⟨0x0002, 7, []⟩ ⟨0x8002, 7, []⟩ ∧ s.d.failure ≠ none := by
  have hrun : (System.run ⟨false, false, false⟩ cancelledExchange System.initial).map
      (fun s => (s.log, s.exchange)) =
      some ([.returned ⟨0x0002, 7, []⟩ ⟨0x8002, 7, []⟩ 0, .abandoned ⟨0x0002, 8, []⟩],
        some ⟨⟨0x0002, 8, []⟩, .returning none⟩) := by
    decide +kernel
  obtain ⟨s, hrun, hs⟩ := map_eq_some_iff.mp hrun
  obtain ⟨hlog, hexchange⟩ := Prod.mk.inj hs
  obtain ⟨hreturned, -, -, habandoned⟩ := exchange_safety (System.Reachable.initial.run hrun)
  have hanswers := (hreturned ⟨0x0002, 7, []⟩ ⟨0x8002, 7, []⟩ 0 (by simp [hlog])).1
  have hfailed := (habandoned [.returned ⟨0x0002, 7, []⟩ ⟨0x8002, 7, []⟩ 0] _ [] hlog).1
  refine ⟨s, hrun, hlog, hanswers, hfailed.resolve_right ?_⟩
  rintro ⟨e, haborting⟩
  rw [hexchange] at haborting
  cases haborting

end Carcer.Guest
