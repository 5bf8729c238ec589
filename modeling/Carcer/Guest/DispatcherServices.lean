import Carcer.Guest.DispatcherSteps

/-!
# The active host services

The dispatcher counts the host services that are active, from the arrival of the request until the
response has been written, and counts up a window each time one of them ends: an exchange does not
time out while a service is active, and begins its time anew when the window has moved. The two
counters are changed by the dispatch, by its deferred end when it fails, and by the write queue.

## Main definitions

* `Reader.services`: one while a dispatch is in progress
* `ServiceView`: the counters and what they count

## Main results

* `hostActive_eq`: while the dispatcher is neither failed nor closed, the count is that of the
  queued responses and of the dispatch in progress, and the window that of the services finished
-/

namespace Carcer.Guest

open Carcer.Wire List

/-- One while a dispatch is in progress, from its first section to the queueing of its response or
to its deferred end. -/
def Reader.services : Reader → ℕ
  | .serving .. | .responding .. | .finishing .. => 1
  | _ => 0

/-- The counters of the host services, and what they count. -/
structure ServiceView where
  hostActive : ℤ
  hostWindow : UInt64
  hostWrites : ℕ
  services : ℕ
  begun : ℕ
  finished : ℕ

/-- The host services of a system. -/
def System.serviceView (s : System) : ServiceView :=
  ⟨s.d.hostActive, s.d.hostWindow, s.d.hostWrites, s.reader.services, s.begun, s.finished⟩

/-- **The invariant of the counters.** -/
structure ServiceView.Ok (v : ServiceView) : Prop where
  active : v.hostActive = v.hostWrites + v.services
  balance : (v.begun : ℤ) = v.finished + v.hostActive
  window : v.hostWindow = UInt64.ofNat v.finished

variable {reader : Reader} {round : PumpRound} {v : ServiceView} {s s' : System}

theorem Reader.Consumes.services (h : reader.Consumes round) : reader.services = 0 := by
  rcases h with ⟨data, rfl⟩ | rfl | rfl <;> rfl

theorem Reader.Consumes.ne_exited (h : reader.Consumes round) : reader ≠ .exited := by
  rcases h with ⟨data, rfl⟩ | rfl | rfl <;> simp

theorem Reader.Continues.services (h : reader.Continues round) : reader.services = 0 := by
  rcases h with rfl | rfl | rfl | ⟨frame, rfl⟩ | ⟨e, rfl⟩ <;> rfl

theorem Reader.Pumped.services {queued : Option ℕ} {outgoing taken : ℕ}
    (h : reader.Pumped queued outgoing taken) : reader.services = 0 := by
  rcases h with ⟨e, rfl⟩ | ⟨round, -, -, -, ⟨data, rfl⟩ | rfl⟩ <;> rfl

theorem ofNat_succ (n : ℕ) : UInt64.ofNat (n + 1) = UInt64.ofNat n + 1 := by
  rw [UInt64.ofNat_add]
  rfl

theorem ServiceView.Ok.pos (h : v.Ok) (hone : 0 < v.hostWrites + v.services) :
    0 < v.hostActive := by
  have := h.active
  omega

/-- A dispatch begins. -/
theorem ServiceView.Ok.begin (h : v.Ok) (hservices : v.services = 0) :
    ({ v with
      hostActive := v.hostActive + 1
      services := 1
      begun := v.begun + 1 } : ServiceView).Ok where
  active := by
    have := h.active
    simp only
    omega
  balance := by
    have := h.balance
    push_cast
    omega
  window := h.window

theorem ServiceView.Ok.respond (h : v.Ok) (hservices : v.services = 1) :
    ({ v with hostWrites := v.hostWrites + 1, services := 0 } : ServiceView).Ok where
  __ := h
  active := by
    have := h.active
    push_cast
    omega

/-- A service ends. -/
theorem ServiceView.Ok.finish (h : v.Ok) {hostWrites services : ℕ}
    (hone : v.hostWrites + v.services = hostWrites + services + 1) :
    ServiceView.Ok ⟨v.hostActive - 1, v.hostWindow + 1, hostWrites, services, v.begun,
      v.finished + 1⟩ where
  active := by
    have := h.active
    simp only
    omega
  balance := by
    have := h.balance
    push_cast
    omega
  window := by
    simp only
    rw [h.window, ofNat_succ]

theorem finishHostServiceLocked_of_pos {d : Dispatcher} (h : 0 < d.hostActive) :
    d.finishHostServiceLocked =
      { d with hostActive := d.hostActive - 1, hostWindow := d.hostWindow + 1 } :=
  if_pos h

/-- The counters are right as long as the reader runs. -/
def System.ServiceInvariant (s : System) : Prop := s.reader ≠ .exited → s.serviceView.Ok

/-- A step that leaves the counters alone. -/
theorem System.ServiceInvariant.keep (h : s.ServiceInvariant) (hreader : s.reader ≠ .exited)
    (hview : s'.serviceView = s.serviceView) : s'.ServiceInvariant := by
  intro _
  rw [hview]
  exact h hreader

/-- A step that leaves the counters and the reader alone. -/
theorem System.ServiceInvariant.exchange (h : s.ServiceInvariant) (hreader : s'.reader = s.reader)
    (hview : s'.serviceView = s.serviceView) : s'.ServiceInvariant := by
  intro hne
  rw [hview]
  exact h (hreader ▸ hne)

theorem hostWrites_enqueue (queued : QueuedWrite) (d : Dispatcher) :
    (d.enqueue queued).hostWrites =
      d.hostWrites + if queued.kind = .hostResponse then 1 else 0 := by
  simp [Dispatcher.hostWrites, Dispatcher.enqueue, countP_append, countP_cons]

/-- **Every transition keeps the counters right.** -/
theorem System.ServiceInvariant.transition (horderly : s.Orderly)
    (h : s.ServiceInvariant) (ht : Transition s s') : s'.ServiceInvariant := by
  cases ht with
  | refused => exact h
  | start ready hstarted hclosing =>
    have hidle := horderly.unstarted hstarted
    exact h.keep (by simp [hidle]) (by simp [serviceView, hidle, Reader.services,
      Dispatcher.hostWrites])
  | close =>
    obtain ⟨closing, failure, heq⟩ := s.d.close_eq
    rw [heq]
    exact h.exchange rfl rfl
  | exit hreader hclosing | fail hreader => exact fun hne => absurd rfl hne
  -- no service begins or ends
  | beginPump hreader | respond hreader | halt hreader | turn hreader hqueued
  | stray hreader hqueued hfront =>
    exact h.keep (by simp [hreader]) (by simp [serviceView, hreader, Reader.services])
  | endPump hreader htaken hnext =>
    exact h.keep (by simp [hreader])
      (by rw [serviceView, serviceView, hreader, hnext.services]; rfl)
  | consume hreader hnext =>
    exact h.keep hreader.ne_exited (by simp [serviceView, hreader.services, hnext.services,
      Dispatcher.hostWrites])
  | request hreader | response hreader hawaited =>
    exact h.keep (by simp [hreader]) (by simp [serviceView, hreader, Reader.services,
      Dispatcher.hostWrites])
  | beginService hreader =>
    have hok := h (by simp [hreader])
    exact fun _ => hok.begin (by simp [serviceView, hreader, Reader.services])
  | serviceFailed hreader =>
    rcases hreader with ⟨frame, scope, round, hreader⟩ | ⟨requestID, encoded, scope, round, hreader⟩
    all_goals
      exact h.keep (by simp [hreader]) (by simp [serviceView, hreader, Reader.services])
  | @queueResponse requestID encoded scope round hreader hroom =>
    have hok := (h (by simp [hreader])).respond (by simp [serviceView, hreader, Reader.services])
    have hresume : (resume scope round).services = 0 := by cases scope <;> rfl
    have hview : serviceView { s with
        d := s.d.enqueue ⟨s.d.nextWrite, encoded, .hostResponse, requestID, 0⟩
        reader := resume scope round
        queued := s.queued ++ [encoded] } =
        { s.serviceView with hostWrites := s.d.hostWrites + 1, services := 0 } := by
      simp only [serviceView, hostWrites_enqueue, hresume, if_true]
      rfl
    intro _
    rw [hview]
    exact hok
  | finishService hreader =>
    have hok := h (by simp [hreader])
    have hpos : 0 < s.d.hostActive := hok.pos (by simp [serviceView, hreader, Reader.services])
    rw [finishHostServiceLocked_of_pos hpos]
    exact fun _ => hok.finish (by rw [serviceView, hreader]; rfl)
  | progress hreader hsent hle hwrites hqueued hremains =>
    exact h.keep (by simp [hreader]) (by simp [serviceView, hreader, Reader.services,
      Dispatcher.hostWrites, hwrites, countP_cons])
  | @complete round first rest hreader hsent hle hwrites hqueued hcomplete =>
    have hok := h (by simp [hreader])
    have hcount : s.d.hostWrites = rest.countP (fun queued => queued.kind = .hostResponse) +
        if first.kind = .hostResponse then 1 else 0 := by
      simp [Dispatcher.hostWrites, hwrites, countP_cons]
    unfold Dispatcher.completeWrite
    by_cases hkind : first.kind = .hostResponse
    · -- the service of the response ends
      rw [if_pos hkind] at hcount
      have hpos : 0 < s.d.hostActive :=
        hok.pos (Nat.add_pos_left (hcount.symm ▸ Nat.succ_pos _ : 0 < s.d.hostWrites) _)
      simp only [hkind, if_true]
      rw [finishHostServiceLocked_of_pos]
      · exact fun _ => hok.finish (by rw [serviceView, hreader, hcount]; rfl)
      · exact hpos
    · rw [if_neg hkind, Nat.add_zero] at hcount
      simp only [hkind, if_false, Nat.add_zero]
      exact h.keep (by simp [hreader]) (by rw [serviceView, serviceView, hreader, hcount]; rfl)
  | beginExchange | giveUp | written | answered | abort | endExchange | cancel | timeout =>
    exact h.exchange rfl rfl
  | queueRequest hexchange hroom =>
    exact h.exchange rfl (by rw [serviceView, serviceView, hostWrites_enqueue]; rfl)

theorem System.Reachable.serviceInvariant {options s} (hs : Reachable options s) :
    s.ServiceInvariant := by
  have hinitial : System.initial.ServiceInvariant := fun _ => ⟨rfl, rfl, rfl⟩
  refine (hs.invariant (P := fun s => s.Orderly ∧ s.ServiceInvariant) ⟨orderly_initial, hinitial⟩
    fun s s' h ht => ?_).2
  exact ⟨h.1.transition ht, h.2.transition h.1 ht⟩

/-- **The count of the active host services.** In every reachable state of a dispatcher that has
neither failed nor been closed, which is a failure as well, the count is the number of the
host-service responses in the queue, and one more while a dispatch is in progress. It is not
negative, and it is zero exactly when no response is queued and no dispatch in progress; a service
that has begun is finished or counted, and the window has moved once for each service finished, by a
response that has left the queue or by a dispatch that returned an error. -/
theorem hostActive_eq {options : DispatcherOptions} {s : System}
    (hs : System.Reachable options s) (hfailure : s.d.failure = none) :
    s.d.hostActive = s.d.hostWrites + s.reader.services ∧
    0 ≤ s.d.hostActive ∧
    (s.d.hostActive = 0 ↔
      (∀ queued ∈ s.d.writes, queued.kind ≠ .hostResponse) ∧ s.reader.services = 0) ∧
    (s.begun : ℤ) = s.finished + s.d.hostActive ∧
    s.d.hostWindow = UInt64.ofNat s.finished := by
  have hrunning : s.reader ≠ .exited := fun h => hs.orderly.exited h hfailure
  obtain ⟨hactive, hbalance, hwindow⟩ := hs.serviceInvariant hrunning
  have hactive : s.d.hostActive = s.d.hostWrites + s.reader.services := hactive
  refine ⟨hactive, by omega, ?_, hbalance, hwindow⟩
  have hnone : s.d.hostWrites = 0 ↔ ∀ queued ∈ s.d.writes, queued.kind ≠ .hostResponse := by
    simp [Dispatcher.hostWrites, countP_eq_zero]
  rw [← hnone]
  omega

/-- The guest sends two host-service requests at once. The response to the first is queued, and the
second is being dispatched. -/
theorem hostActive_eq_two : ∃ s, System.run ⟨true, true, true⟩
      [.start true, .read,
        .pump (.returned (some ((⟨0x0003, 1, []⟩ : Frame).bytes ++ (⟨0x0003, 2, []⟩ : Frame).bytes))
          0 0),
        .read, .read, .read, .serve (.panic []), .read, .read, .read] System.initial = some s ∧
    s.d.hostWrites = 1 ∧ s.d.hostActive = 2 ∧ s.begun = 2 ∧ s.d.hostWindow = 0 := by
  have hrun : ∃ s, System.run ⟨true, true, true⟩
      [.start true, .read,
        .pump (.returned (some ((⟨0x0003, 1, []⟩ : Frame).bytes ++ (⟨0x0003, 2, []⟩ : Frame).bytes))
          0 0),
        .read, .read, .read, .serve (.panic []), .read, .read, .read] System.initial = some s ∧
      s.d.failure = none ∧ s.d.hostWrites = 1 ∧ s.reader.services = 1 ∧ s.finished = 0 :=
    ⟨_, rfl, rfl, rfl, rfl, rfl⟩
  obtain ⟨s, hrun, hfailure, hwrites, hservices, hfinished⟩ := hrun
  obtain ⟨hactive, -, -, hbalance, hwindow⟩ :=
    hostActive_eq (System.Reachable.initial.run hrun) hfailure
  refine ⟨s, hrun, hwrites, by omega, by omega, ?_⟩
  rw [hwindow, hfinished]
  rfl

end Carcer.Guest
