import Mathlib.Data.List.Count
import Mathlib.Tactic.Cases

/-!
# Confirmations

`RequestConfirmation` of `internal/tui/application.go`: a command handler asks the operator, and
waits for the answer, for the end of the application or for its context. The request travels as a
message to the event loop, which shows it in the one slot of the application, or refuses it.
Handlers, the event loop and the shutdown run side by side; a step here is what one of them does
while it holds `stateMu`, or one operation on a channel.

## Main definitions

* `Confirmations`: the state, with the requests on their way
* `ConfirmationStep`, `Confirmations.advance`: what handlers, event loop and shutdown do
* `Confirmations.tokens`: in how many places a request is

## Main results

* `tokens_advance`: a step moves a request, and brings in no other than a new one
* `confirmations_answered`: what holds after any steps
-/

namespace Carcer.Tui

open List Option

/-- The requests for a confirmation; a request has the number of requests before it. -/
structure Confirmations where
  /-- The program is there, and has started. -/
  running : Bool
  closed : Bool
  /-- The channel `done` is closed. -/
  done : Bool
  /-- The context is done. -/
  cancelled : Bool
  /-- How many requests were made. -/
  made : ℕ
  /-- Requests that were sent to the event loop, which has not handled them. -/
  waiting : List ℕ
  /-- The request that is shown. -/
  confirmation : Option ℕ
  /-- The event loop handles a key that answers: the request that it has seen, and the answer. -/
  pressed : Option (ℕ × Bool)
  /-- Replies that are about to be sent. -/
  sending : List (ℕ × Bool)
  /-- Replies that were sent. -/
  replied : List (ℕ × Bool)
  /-- What `RequestConfirmation` has returned. -/
  returned : List (ℕ × Bool)
  /-- The requests that the operator has accepted while they were shown. -/
  accepted : List ℕ
  /-- The requests that were handled while another was shown, or behind the shutdown. -/
  refused : List ℕ
  deriving DecidableEq

def newConfirmations : Confirmations :=
  ⟨false, false, false, false, 0, [], none, none, [], [], [], [], []⟩

inductive ConfirmationStep
  /-- `Run`, up to the event loop. -/
  | start
  /-- The end of `Run`, behind its `close`. -/
  | stop
  /-- `RequestConfirmation`, up to `Send`. -/
  | request
  /-- The event loop handles a message: `showConfirmation`. -/
  | handle (id : ℕ)
  /-- `Send` returns without the message, since the program has ended. -/
  | drop (id : ℕ)
  /-- `handleKey` with a key that answers. -/
  | press (answer : Bool)
  /-- `completeConfirmation`. -/
  | complete
  /-- `close`, under `stateMu`. -/
  | close
  /-- The rest of `close`, without the reply. -/
  | finishClose
  /-- The context is cancelled from outside. -/
  | cancel
  /-- A reply is sent. -/
  | send (id : ℕ)
  /-- `RequestConfirmation` receives its reply. -/
  | receive (id : ℕ)
  /-- `RequestConfirmation` returns because the application or its context is done. -/
  | giveUp (id : ℕ)

namespace Confirmations

variable (s : Confirmations)

/-- `RequestConfirmation` waits. -/
def waits (id : ℕ) : Bool := id < s.made ∧ id ∉ s.returned.map Prod.fst

def showConfirmation (id : ℕ) : Confirmations :=
  if s.closed ∨ s.confirmation.isSome then
    { s with sending := s.sending ++ [(id, false)], refused := s.refused ++ [id] }
  else { s with confirmation := some id }

def completeConfirmation (answer : Bool) : Confirmations :=
  match s.confirmation with
  | none => { s with pressed := none }
  | some id =>
    { s with pressed := none, confirmation := none, sending := s.sending ++ [(id, answer)] }

/-- One step; a step that is not possible does nothing. -/
def advance : ConfirmationStep → Confirmations
  | .start => if s.running ∨ s.closed then s else { s with running := true }
  | .stop => if s.closed then { s with running := false } else s
  | .request =>
    if s.running ∧ ¬s.closed then { s with made := s.made + 1, waiting := s.waiting ++ [s.made] }
    else { s with made := s.made + 1, returned := s.returned ++ [(s.made, false)] }
  | .handle id =>
    if id ∈ s.waiting ∧ s.pressed = none then
      ({ s with waiting := s.waiting.erase id } : Confirmations).showConfirmation id
    else s
  | .drop id => { s with waiting := s.waiting.erase id }
  | .press answer =>
    match s.confirmation, s.pressed with
    | some id, none =>
      { s with
        pressed := some (id, answer)
        accepted := if answer then s.accepted ++ [id] else s.accepted }
    | _, _ => s
  | .complete =>
    match s.pressed with
    | none => s
    | some (_, answer) => s.completeConfirmation answer
  | .close =>
    if s.closed then s
    else { s with
      closed := true
      confirmation := none
      sending := s.sending ++ s.confirmation.toList.map fun id => (id, false) }
  | .finishClose => if s.closed then { s with done := true, cancelled := true } else s
  | .cancel => { s with cancelled := true }
  | .send id =>
    match s.sending.find? fun reply => reply.1 = id with
    | none => s
    | some reply =>
      { s with sending := s.sending.erase reply, replied := s.replied ++ [reply] }
  | .receive id =>
    match s.replied.find? fun reply => reply.1 = id with
    | none => s
    | some reply => if s.waits id then { s with returned := s.returned ++ [reply] } else s
  | .giveUp id =>
    if s.waits id ∧ (s.done ∨ s.cancelled) then { s with returned := s.returned ++ [(id, false)] }
    else s

def advanceAll (steps : List ConfirmationStep) : Confirmations := steps.foldl advance s

/-! ### Places -/

/-- The replies to a request. -/
def repliesTo (id : ℕ) (replies : List (ℕ × Bool)) : ℕ := replies.countP fun reply => reply.1 = id

/-- **In how many places a request is**: on its way, shown, about to be answered, or answered. -/
def tokens (id : ℕ) : ℕ :=
  s.waiting.count id + s.confirmation.toList.count id + repliesTo id s.sending +
    repliesTo id s.replied

end Confirmations

open Confirmations

variable {s : Confirmations} {id : ℕ} {replies : List (ℕ × Bool)} {answer : Bool}

@[simp] theorem repliesTo_nil : repliesTo id [] = 0 := rfl

@[simp] theorem repliesTo_append (first second : List (ℕ × Bool)) :
    repliesTo id (first ++ second) = repliesTo id first + repliesTo id second :=
  countP_append

@[simp] theorem repliesTo_singleton (other : ℕ) (answer : Bool) :
    repliesTo id [(other, answer)] = if other = id then 1 else 0 := by
  by_cases h : other = id <;> simp [repliesTo, h]

theorem repliesTo_erase (id : ℕ) {reply : ℕ × Bool} (h : reply ∈ replies) :
    repliesTo id (replies.erase reply) + (if reply.1 = id then 1 else 0) =
      repliesTo id replies := by
  have hperm := (perm_cons_erase h).countP_eq fun other : ℕ × Bool => decide (other.1 = id)
  rw [countP_cons] at hperm
  simpa [repliesTo] using hperm.symm

theorem repliesTo_pos (h : (id, answer) ∈ replies) : 0 < repliesTo id replies :=
  countP_pos_iff.mpr ⟨_, h, by simp⟩

theorem repliesTo_two (htrue : (id, true) ∈ replies)
    (hfalse : (id, false) ∈ replies) : 2 ≤ repliesTo id replies := by
  have hother : (id, false) ∈ replies.erase (id, true) :=
    (mem_erase_of_ne (by simp)).mpr hfalse
  have hpos := repliesTo_pos hother
  have herase : repliesTo id (replies.erase (id, true)) + 1 = repliesTo id replies := by
    simpa using repliesTo_erase id htrue
  omega

theorem count_erase_waiting (id : ℕ) {waiting : List ℕ} {other : ℕ} (h : other ∈ waiting) :
    (waiting.erase other).count id + (if other = id then 1 else 0) = waiting.count id := by
  have hperm := (perm_cons_erase h).count_eq id
  rw [count_cons] at hperm
  simpa using hperm.symm

theorem tokens_showConfirmation (s : Confirmations) (other id : ℕ) :
    (s.showConfirmation other).tokens id = s.tokens id + (if other = id then 1 else 0) := by
  rw [showConfirmation]
  by_cases hrefused : s.closed ∨ s.confirmation.isSome
  · rw [if_pos hrefused]
    simp only [tokens, repliesTo_append, repliesTo_singleton]
    omega
  have hnone : s.confirmation = none := by
    cases hshown : s.confirmation with
    | none => rfl
    | some shown => exact absurd (.inr (by simp [hshown])) hrefused
  rw [if_neg hrefused]
  simp only [tokens, hnone, toList_none, toList_some, count_nil,
    count_singleton, beq_iff_eq]
  omega

/-- An answered request is no longer shown, and its reply is about to be sent. -/
theorem tokens_completeConfirmation (s : Confirmations) (answer : Bool) (id : ℕ) :
    (s.completeConfirmation answer).tokens id = s.tokens id := by
  rw [completeConfirmation]
  cases hshown : s.confirmation with
  | none => simp [tokens, hshown]
  | some shown =>
    simp only [tokens, hshown, toList_none, toList_some, count_nil,
      count_singleton, beq_iff_eq, repliesTo_append, repliesTo_singleton]
    omega

theorem repliesTo_map_false (ids : Option ℕ) :
    repliesTo id (ids.toList.map fun other => (other, false)) = ids.toList.count id := by
  cases ids with
  | none => rfl
  | some other => simp [count_singleton]

/-- How many places a step brings a request to that was in none. -/
def ConfirmationStep.begins (step : ConfirmationStep) (s : Confirmations) (id : ℕ) : ℕ :=
  match step with
  | .request => if s.made = id then 1 else 0
  | _ => 0

/-- **A step leaves a request in its place or moves it**; only a new one comes in. -/
theorem tokens_advance (s : Confirmations) (step : ConfirmationStep) (id : ℕ) :
    (s.advance step).tokens id ≤ s.tokens id + step.begins s id := by
  cases step with
  | start | stop | finishClose | giveUp =>
    simp only [advance]
    split_ifs <;> exact Nat.le_add_right _ _
  | cancel => exact Nat.le_add_right _ _
  | request =>
    simp only [advance, ConfirmationStep.begins]
    by_cases hsent : s.running ∧ ¬s.closed
    · rw [if_pos hsent]
      simp only [tokens, count_append, count_singleton, beq_iff_eq]
      omega
    · rw [if_neg hsent]
      exact Nat.le_add_right _ _
  | handle other =>
    simp only [advance]
    split_ifs with hhandled
    · rw [tokens_showConfirmation]
      have hcount := count_erase_waiting id hhandled.1
      simp only [tokens]
      omega
    · exact Nat.le_add_right _ _
  | drop other =>
    have hcount := (erase_sublist (a := other) (l := s.waiting)).count_le id
    simp only [advance, tokens]
    omega
  | press answer =>
    simp only [advance]
    split <;> exact Nat.le_add_right _ _
  | complete =>
    simp only [advance]
    split
    · exact Nat.le_add_right _ _
    · rw [tokens_completeConfirmation]
      exact Nat.le_add_right _ _
  | close =>
    simp only [advance]
    split_ifs
    · exact Nat.le_add_right _ _
    · simp only [tokens, repliesTo_append, repliesTo_map_false, toList_none, count_nil]
      omega
  | send other =>
    simp only [advance]
    split
    · exact Nat.le_add_right _ _
    next reply hfound =>
    have hcount := repliesTo_erase id (mem_of_find?_eq_some hfound)
    obtain ⟨answered, answer⟩ := reply
    dsimp only at hcount
    simp only [tokens, repliesTo_append, repliesTo_singleton]
    omega
  | receive other =>
    simp only [advance]
    split
    · exact Nat.le_add_right _ _
    · split_ifs <;> exact Nat.le_add_right _ _

theorem made_advance (s : Confirmations) (step : ConfirmationStep) (id : ℕ) :
    s.made + step.begins s id ≤ (s.advance step).made := by
  cases step with
  | request =>
    simp only [advance, ConfirmationStep.begins]
    split_ifs <;> simp
  | handle other =>
    simp only [advance, showConfirmation]
    split_ifs <;> exact Nat.le_refl _
  | complete =>
    simp only [advance, completeConfirmation]
    split
    · exact Nat.le_refl _
    · split <;> exact Nat.le_refl _
  | receive other =>
    simp only [advance]
    split
    · exact Nat.le_refl _
    · split_ifs <;> exact Nat.le_refl _
  | press | send => simp only [advance]; split <;> exact Nat.le_refl _
  | cancel | drop => exact Nat.le_refl _
  | start | stop | close | finishClose | giveUp =>
    simp only [advance]
    split_ifs <;> exact Nat.le_refl _

theorem begins_eq (step : ConfirmationStep) (s : Confirmations) (id : ℕ) :
    step.begins s id = 0 ∨ s.made = id ∧ step.begins s id = 1 := by
  cases step <;> simp [ConfirmationStep.begins]
  exact ne_or_eq s.made id

/-- A request is in one place, and one that was not made is nowhere. -/
structure Placed (s : Confirmations) : Prop where
  once : ∀ id, s.tokens id ≤ 1
  fresh : ∀ id, s.made ≤ id → s.tokens id = 0

theorem Placed.advance (h : Placed s) (step : ConfirmationStep) : Placed (s.advance step) := by
  constructor
  · intro id
    have htokens := tokens_advance s step id
    rcases begins_eq step s id with hzero | ⟨hmade, hone⟩
    · have honce := h.once id
      omega
    · have hfresh := h.fresh id (Nat.le_of_eq hmade)
      omega
  · intro id hid
    have htokens := tokens_advance s step id
    have hmade := made_advance s step id
    have hfresh := h.fresh id (by omega)
    rcases begins_eq step s id with hzero | ⟨hnew, hone⟩ <;> omega

/-! ### Answers -/

/-- What the answers say of the requests. -/
structure Answered (s : Confirmations) : Prop where
  /-- A key answers the request that was shown when it was pressed, or none. -/
  pressed : ∀ id answer, s.pressed = some (id, answer) →
    (s.confirmation = none ∨ s.confirmation = some id) ∧ (answer = true → id ∈ s.accepted)
  /-- A request that is answered by yes was accepted. -/
  answered : ∀ id, (id, true) ∈ s.sending ++ s.replied → id ∈ s.accepted
  /-- A handler that is told yes was answered so. -/
  returned : ∀ id, (id, true) ∈ s.returned → (id, true) ∈ s.replied
  /-- A refused request is answered by no. -/
  refused : ∀ id ∈ s.refused, (id, false) ∈ s.sending ++ s.replied

section

variable (h : Answered s)
include h

/-- A refusal stays on its way when more replies are. -/
theorem Answered.refused_append (hid : id ∈ s.refused)
    (more : List (ℕ × Bool)) : (id, false) ∈ s.sending ++ more ++ s.replied := by
  rcases mem_append.mp (h.refused id hid) with hsending | hreplied
  · exact mem_append_left _ (mem_append_left _ hsending)
  · exact mem_append_right _ hreplied

theorem Answered.showConfirmation (hpressed : s.pressed = none) (id : ℕ) :
    Answered (s.showConfirmation id) := by
  rw [Confirmations.showConfirmation]
  split_ifs with hrefused
  · refine ⟨h.pressed, ?_, h.returned, ?_⟩
    · intro other hother
      exact h.answered other (by simpa using hother)
    · intro other hother
      rcases mem_append.mp hother with hbefore | hnew
      · exact h.refused_append hbefore _
      · rw [mem_singleton.mp hnew]
        simp
  · refine ⟨?_, h.answered, h.returned, h.refused⟩
    intro other answer hother
    rw [hpressed] at hother
    cases hother

/-- The event loop answers the request that it has seen: no other can be shown in between. -/
theorem Answered.completeConfirmation {seen : ℕ}
    (hpressed : s.pressed = some (seen, answer)) : Answered (s.completeConfirmation answer) := by
  obtain ⟨hshown, haccepted⟩ := h.pressed seen answer hpressed
  rw [Confirmations.completeConfirmation]
  rcases hshown with hshown | hshown
  · rw [hshown]
    exact ⟨by simp, h.answered, h.returned, h.refused⟩
  rw [hshown]
  refine ⟨by simp, ?_, h.returned, ?_⟩
  · intro id hid
    simp only [mem_append, mem_singleton, Prod.mk.injEq] at hid
    rcases hid with (hbefore | ⟨rfl, hyes⟩) | hsent
    · exact h.answered id (mem_append_left _ hbefore)
    · exact haccepted hyes.symm
    · exact h.answered id (mem_append_right _ hsent)
  · exact fun id hid => h.refused_append hid _

/-- A key is noted with the request that is shown. -/
theorem Answered.press (hshown : s.confirmation = some id) (answer : Bool) : Answered { s with
      pressed := some (id, answer)
      accepted := if answer then s.accepted ++ [id] else s.accepted } := by
  have hgrows : ∀ other ∈ s.accepted,
      other ∈ if answer then s.accepted ++ [id] else s.accepted := by
    intro other hother
    cases answer <;> simp [hother]
  refine ⟨?_, fun other hother => hgrows other (h.answered other hother), h.returned, h.refused⟩
  intro other given hpressed
  obtain ⟨rfl, rfl⟩ : id = other ∧ answer = given := by simpa using hpressed
  exact ⟨.inr hshown, by rintro rfl; simp⟩

/-- The shutdown answers no. -/
theorem Answered.close : Answered { s with
      closed := true
      confirmation := none
      sending := s.sending ++ s.confirmation.toList.map fun id => (id, false) } := by
  refine ⟨?_, ?_, h.returned, ?_⟩
  · intro id answer hpressed
    exact ⟨.inl rfl, (h.pressed id answer hpressed).2⟩
  · intro id hid
    exact h.answered id (by simpa using hid)
  · exact fun id hid => h.refused_append hid _

/-- A reply that is sent was about to be. -/
theorem Answered.send {reply : ℕ × Bool} (hreply : reply ∈ s.sending) :
    Answered { s with sending := s.sending.erase reply, replied := s.replied ++ [reply] } := by
  have hsame : ∀ other, other ∈ s.sending.erase reply ++ (s.replied ++ [reply]) ↔
      other ∈ s.sending ++ s.replied := by
    intro other
    have hmoved := (perm_cons_erase hreply).mem_iff (a := other)
    simp only [mem_append, mem_cons, not_mem_nil, or_false] at hmoved ⊢
    tauto
  refine ⟨h.pressed, fun id hid => h.answered id ((hsame _).mp hid), ?_, ?_⟩
  · exact fun id hid => mem_append_left _ (h.returned id hid)
  · exact fun id hid => (hsame _).mpr (h.refused id hid)

/-- A handler returns no, or the reply that it has received. -/
theorem Answered.returns (reply : ℕ × Bool) (hreply : reply ∈ s.replied ∨ reply.2 = false) :
    Answered { s with returned := s.returned ++ [reply] } := by
  refine ⟨h.pressed, h.answered, ?_, h.refused⟩
  intro id hid
  rcases mem_append.mp hid with hbefore | hnew
  · exact h.returned id hbefore
  · rw [← mem_singleton.mp hnew] at hreply
    exact hreply.resolve_right (by simp)

theorem Answered.advance (step : ConfirmationStep) : Answered (s.advance step) := by
  cases step with
  | start | stop | finishClose =>
    simp only [Confirmations.advance]
    split_ifs
    all_goals exact { h with }
  | cancel | drop => exact { h with }
  | request =>
    simp only [Confirmations.advance]
    split_ifs
    · exact { h with }
    · have hreturned := h.returns (s.made, false) (.inr rfl)
      exact ⟨h.pressed, h.answered, hreturned.returned, h.refused⟩
  | handle other =>
    simp only [Confirmations.advance]
    split_ifs with hhandled
    · have hrest : Answered { s with waiting := s.waiting.erase other } :=
        { h with }
      exact hrest.showConfirmation hhandled.2 other
    · exact h
  | press answer =>
    simp only [Confirmations.advance]
    split
    · next hshown hpressed => exact h.press hshown answer
    · exact h
  | complete =>
    simp only [Confirmations.advance]
    split
    · exact h
    · next hpressed => exact h.completeConfirmation hpressed
  | close =>
    simp only [Confirmations.advance]
    split_ifs
    · exact h
    · exact h.close
  | send other =>
    simp only [Confirmations.advance]
    split
    · exact h
    · next hfound => exact h.send (mem_of_find?_eq_some hfound)
  | receive other =>
    simp only [Confirmations.advance]
    split
    · exact h
    next hfound =>
    split_ifs
    · exact h.returns _ (.inl (mem_of_find?_eq_some hfound))
    · exact h
  | giveUp other =>
    simp only [Confirmations.advance]
    split_ifs
    · exact h.returns _ (.inr rfl)
    · exact h

end

/-! ### Every run -/

theorem placed_new : Placed newConfirmations :=
  ⟨fun _ => Nat.zero_le 1, fun _ _ => rfl⟩

theorem answered_new : Answered newConfirmations := by
  constructor <;> simp [newConfirmations]

theorem sound_advanceAll (hplaced : Placed s) (hanswered : Answered s)
    (steps : List ConfirmationStep) :
    Placed (s.advanceAll steps) ∧ Answered (s.advanceAll steps) := by
  induction steps generalizing s with
  | nil => exact ⟨hplaced, hanswered⟩
  | cons step steps ih => exact ih (hplaced.advance step) (hanswered.advance step)

theorem returned_of_refused (hplaced : Placed s) (hanswered : Answered s) (hid : id ∈ s.refused)
    (hreturned : (id, answer) ∈ s.returned) : answer = false := by
  cases answer with
  | false => rfl
  | true =>
    have hyes := hanswered.returned id hreturned
    have htwo := repliesTo_two (mem_append_right s.sending hyes) (hanswered.refused id hid)
    have honce := hplaced.once id
    rw [repliesTo_append] at htwo
    rw [tokens] at honce
    omega

/-- **Confirmations are answered once, and by the operator.** After any steps of handlers, event
loop, context and shutdown, the one request that is shown is one that waits for its reply. A request
was sent at most one reply, and a reply that is about to be sent finds the channel empty, so that
sending it does not block. `RequestConfirmation` has returned true only for a request that the
operator has accepted while it was shown. A request that was handled while another was shown, or
behind the shutdown, is answered by no; one that is made before the start or behind the shutdown
returns false at once. -/
theorem confirmations_answered (steps : List ConfirmationStep) (id : ℕ) :
    let s := newConfirmations.advanceAll steps
    (s.confirmation = some id → repliesTo id s.sending = 0 ∧ repliesTo id s.replied = 0) ∧
      repliesTo id s.replied ≤ 1 ∧
      (∀ answer, (id, answer) ∈ s.sending → repliesTo id s.replied = 0) ∧
      ((id, true) ∈ s.returned → id ∈ s.accepted) ∧
      (id ∈ s.refused → (id, false) ∈ s.sending ++ s.replied ∧
        ∀ answer, (id, answer) ∈ s.returned → answer = false) ∧
      (s.running = false ∨ s.closed = true →
        (s.advance .request).returned = s.returned ++ [(s.made, false)]) := by
  intro s
  obtain ⟨hplaced, hanswered⟩ := sound_advanceAll placed_new answered_new steps
  have honce : s.waiting.count id + s.confirmation.toList.count id + repliesTo id s.sending +
      repliesTo id s.replied ≤ 1 := hplaced.once id
  refine ⟨?_, by omega, ?_, ?_, ?_, ?_⟩
  · intro hshown
    rw [hshown, toList_some, count_singleton_self] at honce
    omega
  · intro answer hsending
    have hpos := repliesTo_pos hsending
    omega
  · intro hreturned
    exact hanswered.answered id (mem_append_right _ (hanswered.returned id hreturned))
  · intro hrefused
    exact ⟨hanswered.refused id hrefused, fun _ => returned_of_refused hplaced hanswered hrefused⟩
  · intro hdown
    have hrefused : ¬(s.running = true ∧ ¬s.closed = true) := by
      rintro ⟨hrunning, hopen⟩
      rcases hdown with hdown | hdown
      · rw [hrunning] at hdown
        cases hdown
      · exact hopen hdown
    rw [Confirmations.advance, if_neg hrefused]

/-- A request is handled while another is shown. -/
def refusedRun : List ConfirmationStep :=
  [.start, .request, .handle 0, .request, .handle 1, .send 1, .receive 1]

theorem confirmations_answered_refused :
    1 ∈ (newConfirmations.advanceAll refusedRun).refused ∧
      ∀ answer, (1, answer) ∈ (newConfirmations.advanceAll refusedRun).returned →
        answer = false := by
  have hrefused : 1 ∈ (newConfirmations.advanceAll refusedRun).refused := by decide
  exact ⟨hrefused, ((confirmations_answered refusedRun 1).2.2.2.2.1 hrefused).2⟩

/-- **A request that is made while another is shown can be accepted**: the operator answers the
first before the message of the second is handled, and is then shown the second. -/
theorem made_while_shown :
    (newConfirmations.advanceAll [.start, .request, .handle 0]).confirmation = some 0 ∧
      (1, true) ∈ (newConfirmations.advanceAll
        [.start, .request, .handle 0, .request, .press true, .complete, .handle 1, .press true,
          .complete, .send 1, .receive 1]).returned := by
  decide

end Carcer.Tui
