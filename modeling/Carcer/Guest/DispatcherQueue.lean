import Carcer.Guest.DispatcherSteps

/-!
# The write queue of the dispatcher

The exchanges and the host services put frames into one queue, and the reader writes them to the
serial channel piece by piece. The offset of the write at the front is counted up only after the
reader has consumed what arrived in the same call of `Pump`, so for a while the channel has taken
bytes that no offset counts.

## Main definitions

* `QueueView`: what a system holds of the queue and of its record
* `QueueView.pending`: the bytes still to be written
* `QueueView.Ok`, `QueueView.Took`: the invariant of the queue, and of what the reader took from it

## Main results

* `System.QueueInvariant.transition`: every transition keeps the invariant
* `sent_prefix_of_queued`: the channel takes a prefix of the frames queued, in order, and the
  counters and limits of the queue hold
-/

namespace Carcer.Guest

open Carcer.Wire List

/-- The queue, and the record of what went through it. -/
structure QueueView where
  writes : List QueuedWrite
  queuedBytes : ℤ
  queued : List Bytes
  sent : Bytes
  inFlight : ℕ

def System.queueView (s : System) : QueueView :=
  ⟨s.d.writes, s.d.queuedBytes, s.queued, s.sent, s.inFlight⟩

namespace QueueView

/-- The bytes still to be written. -/
def pending (v : QueueView) : Bytes :=
  match v.writes with
  | [] => []
  | first :: rest => first.data.drop (first.offset + v.inFlight) ++ rest.flatMap QueuedWrite.data

/-- **The invariant of the queue**: nothing is lost, and the counters are right. -/
structure Ok (v : QueueView) : Prop where
  conserved : v.sent ++ v.pending = v.queued.flatten
  fresh : ∀ queued ∈ v.writes.tail, queued.offset = 0
  idle : v.writes = [] → v.inFlight = 0
  bytes : v.queuedBytes = (v.writes.map fun queued => queued.data.length).sum
  count_le : v.writes.length ≤ dispatcherMaxQueuedWrites
  bytes_le : v.queuedBytes ≤ dispatcherMaxQueuedBytes

/-- The write at the front of the queue has the address. -/
def Front (v : QueueView) (queued : ℕ) : Prop :=
  ∃ first rest, v.writes = first :: rest ∧ first.id = queued

/-- What a round of `readLoop` has taken from the queue is still there, and `Pump` has taken what
it has counted. -/
structure RoundOk (v : QueueView) (round : PumpRound) : Prop where
  front : ∀ queued ∈ round.queued, v.Front queued
  nothing : round.queued = none → v.inFlight = 0
  counted : 0 ≤ round.sent → round.sent ≤ round.outgoing → round.sent = v.inFlight

/-- What the reader has taken from the queue, depending on where it stands. -/
def Took (v : QueueView) : Reader → Prop
  | .idle | .top => v.inFlight = 0
  | .pumping queued outgoing => v.inFlight = 0 ∧ (queued = none → outgoing = []) ∧
      ∀ id ∈ queued, ∃ first rest, v.writes = first :: rest ∧ first.id = id ∧
        outgoing <+: first.data.drop first.offset
  | .incoming _ round | .startup round | .frames round | .dispatching _ _ round
  | .serving _ _ round | .responding _ _ _ round | .advancing round => v.RoundOk round
  | .finishing _ | .failing _ | .exited => True

/-! ### The moves of the queue -/

/-- The queue with one more write. -/
def enqueue (queued : QueuedWrite) (v : QueueView) : QueueView :=
  { v with
    writes := v.writes ++ [queued]
    queuedBytes := v.queuedBytes + queued.data.length
    queued := v.queued ++ [queued.data] }

variable {v : QueueView} {reader : Reader}

theorem Ok.enqueue (h : v.Ok) {queued : QueuedWrite} (hoffset : queued.offset = 0)
    (hcount : v.writes.length < dispatcherMaxQueuedWrites)
    (hbytes : v.queuedBytes + queued.data.length ≤ dispatcherMaxQueuedBytes) :
    (v.enqueue queued).Ok where
  conserved := by
    have hpending : (v.enqueue queued).pending = v.pending ++ queued.data := by
      cases hwrites : v.writes with
      | nil => simp [pending, QueueView.enqueue, hwrites, hoffset, h.idle hwrites]
      | cons first rest => simp [pending, QueueView.enqueue, hwrites]
    rw [hpending, ← append_assoc]
    simp [QueueView.enqueue, h.conserved]
  fresh := by
    intro q hq
    cases hwrites : v.writes with
    | nil => simp [QueueView.enqueue, hwrites] at hq
    | cons first rest =>
      simp only [QueueView.enqueue, hwrites, cons_append, tail_cons, mem_append,
        mem_singleton] at hq
      rcases hq with hq | rfl
      · exact h.fresh q (by simpa [hwrites] using hq)
      · exact hoffset
  idle := by simp [QueueView.enqueue]
  bytes := by simp [QueueView.enqueue, h.bytes]
  count_le := by
    simp only [QueueView.enqueue, length_append, length_singleton]
    omega
  bytes_le := hbytes

theorem RoundOk.enqueue {round} (h : v.RoundOk round)
    (queued : QueuedWrite) : (v.enqueue queued).RoundOk round where
  __ := h
  front := by
    intro id hid
    obtain ⟨first, rest, hwrites, hfirst⟩ := h.front id hid
    exact ⟨first, rest ++ [queued], by simp [QueueView.enqueue, hwrites], hfirst⟩

theorem Took.enqueue (h : v.Took reader) (queued : QueuedWrite) :
    (v.enqueue queued).Took reader := by
  cases reader with
  | idle | top => exact h
  | pumping taken outgoing =>
    obtain ⟨hnone, hempty, hfront⟩ := h
    refine ⟨hnone, hempty, fun id hid => ?_⟩
    obtain ⟨first, rest, hwrites, hfirst, houtgoing⟩ := hfront id hid
    exact ⟨first, rest ++ [queued], by simp [QueueView.enqueue, hwrites], hfirst, houtgoing⟩
  | incoming data round | startup round | frames round | dispatching frame scope round
  | serving frame scope round | responding requestID encoded scope round | advancing round =>
    exact RoundOk.enqueue h queued
  | finishing e | failing e | exited => trivial

/-- The channel takes some of the bytes that the reader handed to it. -/
theorem Ok.take (h : v.Ok) {queued : Option ℕ} {outgoing : Bytes}
    (htook : v.Took (.pumping queued outgoing)) {taken : ℕ} (htaken : taken ≤ outgoing.length) :
    ({ v with sent := v.sent ++ outgoing.take taken, inFlight := taken } : QueueView).Ok := by
  obtain ⟨hnone, hempty, hfront⟩ := htook
  rcases queued with _ | id
  · -- nothing was handed over, so nothing is taken
    obtain rfl := hempty rfl
    obtain rfl : taken = 0 := by simpa using htaken
    rw [take_nil, append_nil]
    rw [← hnone]
    exact h
  obtain ⟨first, rest, hwrites, -, more, hmore⟩ := hfront id rfl
  have hdrop : first.data.drop first.offset =
      outgoing.take taken ++ first.data.drop (first.offset + taken) := by
    rw [← drop_drop, ← hmore, drop_append_of_le_length htaken, ← append_assoc,
      take_append_drop]
  refine ⟨?_, h.fresh, fun hnil => ?_, h.bytes, h.count_le, h.bytes_le⟩
  · rw [← h.conserved]
    simp only [pending, hwrites, hnone, Nat.add_zero, hdrop, append_assoc]
  · rw [show v.writes = [] from hnil] at hwrites
    cases hwrites

theorem Ok.progress (h : v.Ok) {first rest} (hwrites : v.writes = first :: rest) :
    ({ v with
      writes := { first with offset := first.offset + v.inFlight } :: rest
      inFlight := 0 } : QueueView).Ok := by
  refine ⟨?_, ?_, fun _ => rfl, ?_, ?_, h.bytes_le⟩
  · rw [← h.conserved]
    simp only [pending, hwrites, Nat.add_zero]
  · intro q hq
    exact h.fresh q (by simpa [hwrites] using hq)
  · rw [h.bytes, hwrites]
    rfl
  · simpa [hwrites] using h.count_le

/-- The write at the front is complete. -/
theorem Ok.complete (h : v.Ok) {first rest} (hwrites : v.writes = first :: rest)
    (hcomplete : first.offset + v.inFlight = first.data.length) :
    ({ v with
      writes := rest
      queuedBytes := v.queuedBytes - first.data.length
      inFlight := 0 } : QueueView).Ok := by
  have hfresh : ∀ queued ∈ rest, queued.offset = 0 := by simpa [hwrites] using h.fresh
  have hsum : v.queuedBytes =
      first.data.length + ((rest.map fun queued => queued.data.length).sum : ℕ) := by
    rw [h.bytes, hwrites]
    simp
  refine ⟨?_, fun q hq => hfresh q (mem_of_mem_tail hq), fun _ => rfl, ?_, ?_, ?_⟩
  · rw [← h.conserved]
    simp only [pending, hwrites, hcomplete, drop_length, nil_append]
    cases rest with
    | nil => rfl
    | cons next rest => simp [hfresh next (by simp)]
  · simp only
    omega
  · have := h.count_le
    rw [hwrites, length_cons] at this
    simp only
    omega
  · have := h.bytes_le
    simp only
    omega

/-! ### The places of the reader -/

theorem Took.round {round} (h : v.Took reader)
    (hreader : reader.Consumes round) : v.RoundOk round := by
  rcases hreader with ⟨data, rfl⟩ | rfl | rfl <;> exact h

theorem RoundOk.took {round} (h : v.RoundOk round)
    (hreader : reader.Continues round) : v.Took reader := by
  rcases hreader with rfl | rfl | rfl | ⟨frame, rfl⟩ | ⟨e, rfl⟩
  iterate 4 exact h
  · trivial

theorem Took.pumped {queued : Option ℕ} {outgoing : Bytes} (h : v.Took (.pumping queued outgoing))
    {taken : ℕ} (htaken : taken ≤ outgoing.length)
    (hreader : reader.Pumped queued outgoing.length taken) :
    ({ v with sent := v.sent ++ outgoing.take taken, inFlight := taken } : QueueView).Took
      reader := by
  obtain ⟨-, hempty, hfront⟩ := h
  rcases hreader with ⟨e, rfl⟩ | ⟨round, hqueued, houtgoing, hcounted, hplace⟩
  · trivial
  have hround : ({ v with sent := v.sent ++ outgoing.take taken, inFlight := taken } :
      QueueView).RoundOk round := by
    refine ⟨fun id hid => ?_, fun hnone => ?_, fun hpos hle => hcounted hpos (houtgoing ▸ hle)⟩
    · obtain ⟨first, rest, hwrites, hfirst, -⟩ := hfront id (hqueued ▸ hid)
      exact ⟨first, rest, hwrites, hfirst⟩
    · rw [hempty (hqueued ▸ hnone)] at htaken
      simpa using htaken
  rcases hplace with ⟨data, rfl⟩ | rfl
  · exact hround
  · exact hround

end QueueView

/-- The invariant of the queue and of the reader. -/
def System.QueueInvariant (s : System) : Prop := s.queueView.Ok ∧ s.queueView.Took s.reader

/-- A step that leaves the queue alone. -/
theorem System.QueueInvariant.keep {s s' : System} (h : s.QueueInvariant)
    (hview : s'.queueView = s.queueView) (htook : s.queueView.Took s'.reader) :
    s'.QueueInvariant := by
  rw [System.QueueInvariant, hview]
  exact ⟨h.1, htook⟩

/-- At the top of its loop the reader takes a chunk of the write at the front. -/
theorem System.took_beginPump {s : System} (h : s.queueView.Took .top) :
    s.queueView.Took (.pumping (s.d.writes.head?.map QueuedWrite.id) s.d.outgoing) := by
  refine ⟨h, fun hnone => ?_, fun id hid => ?_⟩
  · rw [Option.map_eq_none_iff, head?_eq_none_iff] at hnone
    rw [Dispatcher.outgoing, hnone]
  · cases hwrites : s.d.writes with
    | nil => simp [hwrites] at hid
    | cons first rest =>
      obtain rfl : first.id = id := by simpa [hwrites] using hid
      refine ⟨first, rest, hwrites, rfl, ?_⟩
      rw [Dispatcher.outgoing, hwrites]
      have hfront := take_prefix (min first.data.length (first.offset + dispatcherWriteChunkBytes))
        first.data
      exact hfront.drop _

/-- **Every transition keeps the invariant of the queue.** -/
theorem System.QueueInvariant.transition {s s' : System} (horderly : s.Orderly)
    (h : s.QueueInvariant) (ht : Transition s s') : s'.QueueInvariant := by
  obtain ⟨hok, htook⟩ := id h
  cases ht with
  | refused => exact h
  | start ready hstarted hclosing =>
    rw [horderly.unstarted hstarted] at htook
    exact h.keep rfl htook
  | close =>
    obtain ⟨closing, failure, heq⟩ := s.d.close_eq
    rw [heq]
    exact h.keep rfl htook
  | exit hreader hclosing | serviceFailed hreader | halt hreader => exact h.keep rfl trivial
  | beginPump hreader =>
    rw [hreader] at htook
    exact h.keep rfl (took_beginPump htook)
  | endPump hreader htaken hnext =>
    rw [hreader] at htook
    exact ⟨hok.take htook htaken, htook.pumped htaken hnext⟩
  | consume hreader hnext => exact h.keep rfl ((htook.round hreader).took hnext)
  | request hreader | response hreader hawaited | beginService hreader | respond hreader =>
    rw [hreader] at htook
    exact h.keep rfl htook
  | @queueResponse requestID encoded scope round hreader hroom =>
    rw [hreader] at htook
    have hround := QueueView.RoundOk.enqueue htook
      ⟨s.d.nextWrite, encoded, .hostResponse, requestID, 0⟩
    refine ⟨hok.enqueue rfl hroom.count_lt hroom.bytes_le, ?_⟩
    cases scope <;> exact hround
  | finishService hreader =>
    obtain ⟨hostActive, hostWindow, heq⟩ := s.d.finishHostServiceLocked_eq
    rw [heq]
    exact h.keep rfl trivial
  | turn hreader hqueued =>
    rw [hreader] at htook
    exact h.keep rfl (htook.nothing hqueued)
  | stray hreader hqueued hfront =>
    rw [hreader] at htook
    obtain ⟨first, rest, hwrites, hfirst⟩ := htook.front _ hqueued
    have hwrites : s.d.writes = first :: rest := hwrites
    exact absurd hfirst (hfront first (by simp [hwrites]))
  | progress hreader hsent hle hwrites hqueued hremains =>
    rw [hreader] at htook
    have hcounted : _ = (s.inFlight : ℤ) := htook.counted hsent hle
    rw [hcounted, Int.toNat_natCast]
    exact ⟨hok.progress hwrites, rfl⟩
  | @complete round first rest hreader hsent hle hwrites hqueued hcomplete =>
    rw [hreader] at htook
    have hcounted : round.sent = (s.inFlight : ℤ) := htook.counted hsent hle
    rw [hcounted, Int.toNat_natCast] at hcomplete
    obtain ⟨hostActive, hostWindow, heq⟩ := s.d.completeWrite_eq first rest
    rw [heq]
    exact ⟨hok.complete hwrites hcomplete, rfl⟩
  | @fail e hreader =>
    obtain ⟨failure, hostActive, hostWindow, heq⟩ := s.d.fail_eq e
    rw [heq]
    exact h.keep rfl trivial
  | beginExchange | giveUp | written | answered | abort | endExchange | cancel | timeout =>
    exact h.keep rfl htook
  | queueRequest hexchange hroom =>
    exact ⟨hok.enqueue rfl hroom.count_lt hroom.bytes_le, htook.enqueue _⟩

theorem System.Reachable.queueInvariant {options s} (hs : Reachable options s) :
    s.QueueInvariant := by
  have hinitial : System.initial.QueueInvariant :=
    ⟨⟨rfl, fun _ h => absurd h not_mem_nil, fun _ => rfl, rfl, Nat.zero_le _, by decide⟩, rfl⟩
  refine (hs.invariant (P := fun s => s.Orderly ∧ s.QueueInvariant) ⟨orderly_initial, hinitial⟩
    fun s s' h ht => ?_).2
  exact ⟨h.1.transition ht, h.2.transition h.1 ht⟩

/-- **The serial channel takes the queued frames in order.** In every reachable state the bytes that
the channel has taken are a prefix of the concatenation of the frames queued so far, the byte count
of the queue is the sum of the lengths of the writes in it, and the queue holds at most its maximum
of writes and of bytes. -/
theorem sent_prefix_of_queued {options : DispatcherOptions} {s : System}
    (hs : System.Reachable options s) :
    s.sent <+: s.queued.flatten ∧
    s.d.queuedBytes = (s.d.writes.map fun queued => queued.data.length).sum ∧
    s.d.writes.length ≤ 8 ∧
    s.d.queuedBytes ≤ 32 * 1024 * 1024 + 8 * 16 := by
  obtain ⟨hok, -⟩ := hs.queueInvariant
  exact ⟨⟨_, hok.conserved⟩, hok.bytes, hok.count_le, hok.bytes_le⟩

/-- A request of which the channel has taken ten bytes, when the guest asks for a host service and
the response is queued behind it. -/
theorem sent_prefix_behind_request : ∃ s, System.run ⟨false, false, false⟩
      [.start true, .exchange ⟨0x0002, 7, []⟩, .proceed, .read,
        .pump (.returned (some (⟨0x0003, 1, []⟩ : Frame).bytes) 10 10), .read, .read, .read,
        .serve (.error []), .read, .read, .read] System.initial = some s ∧
    s.sent.length = 10 ∧ s.d.writes.length = 2 ∧ s.sent <+: s.queued.flatten ∧
    s.d.queuedBytes = (s.d.writes.map fun queued => queued.data.length).sum := by
  have hrun : ∃ s, System.run ⟨false, false, false⟩
      [.start true, .exchange ⟨0x0002, 7, []⟩, .proceed, .read,
        .pump (.returned (some (⟨0x0003, 1, []⟩ : Frame).bytes) 10 10), .read, .read, .read,
        .serve (.error []), .read, .read, .read] System.initial = some s ∧
      s.sent.length = 10 ∧ s.d.writes.length = 2 := ⟨_, rfl, rfl, rfl⟩
  obtain ⟨s, hrun, hsent, hwrites⟩ := hrun
  have hqueue := sent_prefix_of_queued (System.Reachable.initial.run hrun)
  exact ⟨s, hrun, hsent, hwrites, hqueue.1, hqueue.2.1⟩

end Carcer.Guest
