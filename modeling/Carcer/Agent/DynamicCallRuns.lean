import Carcer.Agent.DynamicCall

/-!
# Runs of the router of dynamic calls

What holds of the router over every interleaving of its methods: one terminal outcome a call with
one event, delivery only on evidence, one start of a handler, no admission to a turn that is
remembered as terminal, and a map and an order list of the same routes.

Every section of a method other than `ensure` and `prune` changes routes in place. `Advances` says
what such a section does to the routes and which outcomes and starts it accounts for; it composes,
so that the loops of `releaseUnstarted` and `orphanUnresolved` need no argument of their own.

## Main definitions

* `Grows`: what may change of a route
* `RouterStep`: what one move may do to the router
* `Evidence`: what a notification must show
* `RouterInvariant`: what holds in every state

## Main results

* `routerRun_invariant`: the invariant after every run
* `dynamicCallRouter_sound`: all of it, with what one more move may do
-/

namespace Carcer.Agent

open Carcer.Wire Carcer.Json Carcer.Machine.Interleaving List

/-! ### What may change of a route -/

/-- A route keeps its identity, its outcome and every flag it has. -/
structure Grows (before after : Routing) : Prop where
  identity : after.toIdentity = before.toIdentity
  outcome : ∀ outcome, before.terminalOutcome = some outcome →
    after.terminalOutcome = some outcome
  resultReady : before.resultReady → after.resultReady
  responseWriteAttempted : before.responseWriteAttempted → after.responseWriteAttempted
  turnTerminalRecorded : before.turnTerminalRecorded → after.turnTerminalRecorded
  handlerFinished : before.handlerFinished → after.handlerFinished
  handlerReserved : before.handlerReserved → after.handlerReserved
  handlerStarted : before.handlerStarted → after.handlerStarted

theorem Grows.refl (routing : Routing) : Grows routing routing :=
  ⟨rfl, fun _ h => h, id, id, id, id, id, id⟩

theorem Grows.trans {a b c} (h₁ : Grows a b) (h₂ : Grows b c) : Grows a c where
  identity := h₂.identity.trans h₁.identity
  outcome o h := h₂.outcome o (h₁.outcome o h)
  resultReady := h₂.resultReady ∘ h₁.resultReady
  responseWriteAttempted := h₂.responseWriteAttempted ∘ h₁.responseWriteAttempted
  turnTerminalRecorded := h₂.turnTerminalRecorded ∘ h₁.turnTerminalRecorded
  handlerFinished := h₂.handlerFinished ∘ h₁.handlerFinished
  handlerReserved := h₂.handlerReserved ∘ h₁.handlerReserved
  handlerStarted := h₂.handlerStarted ∘ h₁.handlerStarted

/-- Every route of a router is a route of another, and has grown. -/
def RoutesGrow (r r' : Router) : Prop :=
  ∀ (route : ℕ) (routing : Routing), r.routes[route]? = some routing →
    ∃ routing', r'.routes[route]? = some routing' ∧ Grows routing routing'

variable {r r' : Router} {route : ℕ} {events : List Event} {starts : List ℕ} {s : Shared}
  {params item : List (Bytes × Value)} {turn : TurnKey} {action : Action} {call : Call}

theorem RoutesGrow.of_eq (h : r'.routes = r.routes) : RoutesGrow r r' :=
  fun route routing hroute => ⟨routing, by rw [h, hroute], .refl routing⟩

theorem RoutesGrow.trans {a b c} (h₁ : RoutesGrow a b) (h₂ : RoutesGrow b c) : RoutesGrow a c := by
  intro route routing hroute
  obtain ⟨routing₁, hroute₁, hgrows₁⟩ := h₁ route routing hroute
  obtain ⟨routing₂, hroute₂, hgrows₂⟩ := h₂ route routing₁ hroute₁
  exact ⟨routing₂, hroute₂, hgrows₁.trans hgrows₂⟩

/-! ### Outcomes and starts -/

/-- Whether a route has an outcome, as a number of events. -/
def Router.settled (r : Router) (p : ℕ × TerminalOutcome) : ℕ :=
  if (r.routes[p.1]?).bind Routing.terminalOutcome = some p.2 then 1 else 0

/-- Whether the handler of a route was started, as a number of starts. -/
def Router.startedCount (r : Router) (route : ℕ) : ℕ :=
  if r.has Routing.handlerStarted route then 1 else 0

/-- The outcome that an event records. -/
def Event.outcome : Event → Option (ℕ × TerminalOutcome)
  | .result route _ outcome _ => some (route, outcome)
  | _ => none

/-- The outcomes that events record. -/
def outcomes (events : List Event) : List (ℕ × TerminalOutcome) := events.filterMap Event.outcome

theorem outcomes_append (xs ys : List Event) :
    outcomes (xs ++ ys) = outcomes xs ++ outcomes ys := filterMap_append

/-- A section that changes routes in place, with the events and the starts it accounts for. -/
structure Advances (r : Router) (events : List Event) (starts : List ℕ) (r' : Router) : Prop where
  calls : r'.calls = r.calls
  order : r'.order = r.order
  terminalTurns : r'.terminalTurns = r.terminalTurns
  terminalOrder : r'.terminalOrder = r.terminalOrder
  grow : RoutesGrow r r'
  settled : ∀ p, (outcomes events).count p + r.settled p = r'.settled p
  started : ∀ route, starts.count route + r.startedCount route = r'.startedCount route

theorem Advances.refl (r : Router) : Advances r [] [] r :=
  ⟨rfl, rfl, rfl, rfl, .of_eq rfl, by simp [outcomes], by simp⟩

theorem Advances.trans {a b c xs ys} {ss ts : List ℕ} (h₁ : Advances a xs ss b)
    (h₂ : Advances b ys ts c) : Advances a (xs ++ ys) (ss ++ ts) c where
  calls := h₂.calls.trans h₁.calls
  order := h₂.order.trans h₁.order
  terminalTurns := h₂.terminalTurns.trans h₁.terminalTurns
  terminalOrder := h₂.terminalOrder.trans h₁.terminalOrder
  grow := h₁.grow.trans h₂.grow
  settled p := by
    rw [outcomes_append, count_append, ← h₂.settled, ← h₁.settled]
    omega
  started route := by
    rw [count_append, ← h₂.started, ← h₁.started]
    omega

section Modify

variable {r : Router} {route : ℕ} {f : Routing → Routing}

theorem getElem?_modify (r : Router) (route : ℕ) (f : Routing → Routing) (i : ℕ) :
    (r.modify route f).routes[i]? = (r.routes[i]?).map fun x => if route = i then f x else x := by
  rw [Router.modify, List.getElem?_modify]
  rfl

theorem RoutesGrow.modify (hf : ∀ x, r.routes[route]? = some x → Grows x (f x)) :
    RoutesGrow r (r.modify route f) := by
  intro i x hx
  refine ⟨_, by rw [getElem?_modify, hx]; rfl, ?_⟩
  split
  · rename_i hi
    exact hf x (hi ▸ hx)
  · exact .refl x

theorem settled_modify (hf : ∀ x, (f x).terminalOutcome = x.terminalOutcome)
    (p : ℕ × TerminalOutcome) : (r.modify route f).settled p = r.settled p := by
  rw [Router.settled, Router.settled, getElem?_modify]
  cases r.routes[p.1]? with
  | none => rfl
  | some x =>
    by_cases hp : route = p.1
    · simp [hp, hf]
    · simp [hp]

theorem startedCount_modify (hf : ∀ x, (f x).handlerStarted = x.handlerStarted) (i : ℕ) :
    (r.modify route f).startedCount i = r.startedCount i := by
  rw [Router.startedCount, Router.startedCount, Router.has, Router.has, getElem?_modify]
  cases r.routes[i]? with
  | none => rfl
  | some x =>
    by_cases hi : route = i
    · simp [hi, hf]
    · simp [hi]

/-- A flag other than the start of the handler is set. -/
theorem Advances.modify (hgrows : ∀ x, Grows x (f x))
    (houtcome : ∀ x, (f x).terminalOutcome = x.terminalOutcome)
    (hstarted : ∀ x, (f x).handlerStarted = x.handlerStarted) :
    Advances r [] [] (r.modify route f) where
  calls := rfl
  order := rfl
  terminalTurns := rfl
  terminalOrder := rfl
  grow := .modify fun x _ => hgrows x
  settled p := by simp [outcomes, settled_modify houtcome]
  started i := by simp [startedCount_modify hstarted]

end Modify

/-! ### The sections of the methods -/

theorem outcomes_eventOf {r : Router} {routing} {event : Identity → Event}
    (hroute : r.routes[route]? = some routing) :
    r.eventOf route event = [event routing.toIdentity] := by
  simp [Router.eventOf, Router.identity, hroute]

theorem finish_advances (r : Router) (route : ℕ) (outcome : TerminalOutcome) (status : Bytes) :
    Advances r (finish r route outcome status).2 [] (finish r route outcome status).1 := by
  rw [finish]
  split
  · exact .refl r
  rename_i routing hroute
  split
  · exact .refl r
  rename_i hnone
  have hnone : routing.terminalOutcome = none := by simpa using hnone
  rw [outcomes_eventOf hroute]
  refine ⟨rfl, rfl, rfl, rfl, .modify ?_, ?_, ?_⟩
  · intro x hx
    obtain rfl : routing = x := by simpa [hroute] using hx
    exact { Grows.refl routing with
      outcome := by simp [hnone] }
  · intro p
    obtain ⟨i, o⟩ := p
    rw [Router.settled, Router.settled, getElem?_modify]
    by_cases hi : route = i
    · subst hi
      by_cases ho : outcome = o <;> simp [outcomes, Event.outcome, hroute, hnone, ho]
    · simp [outcomes, Event.outcome, hi]
  · intro i
    simp [startedCount_modify]

theorem finishHandler_advances (r : Router) (route : ℕ) :
    Advances r [] [] (finishHandler r route) :=
  .modify (fun x => { Grows.refl x with handlerFinished := fun _ => rfl }) (fun _ => rfl)
    fun _ => rfl

theorem markResultReady_advances (r : Router) (route : ℕ) :
    Advances r (markResultReady r route).2 [] (markResultReady r route).1 := by
  rw [markResultReady]
  split
  · exact .refl r
  rename_i routing hroute
  split
  · exact .refl r
  rw [outcomes_eventOf hroute]
  have h : Advances r [] [] (r.modify route fun x => { x with resultReady := true }) :=
    .modify (fun x => { Grows.refl x with resultReady := fun _ => rfl }) (fun _ => rfl)
      fun _ => rfl
  exact { h with settled := h.settled }

theorem markResponseWriteAttempted_advances (r : Router) (route : ℕ) :
    Advances r (markResponseWriteAttempted r route).2 []
      (markResponseWriteAttempted r route).1 := by
  rw [markResponseWriteAttempted]
  split
  · exact .refl r
  rename_i routing hroute
  split
  · exact .refl r
  rw [outcomes_eventOf hroute]
  have h : Advances r [] []
      (r.modify route fun x => { x with responseWriteAttempted := true }) :=
    .modify (fun x => { Grows.refl x with responseWriteAttempted := fun _ => rfl })
      (fun _ => rfl) fun _ => rfl
  exact { h with settled := h.settled }

theorem reserveHandler_advances (r : Router) (route : ℕ) :
    Advances r [] [] (reserveHandler r route).1 := by
  rw [reserveHandler]
  split
  · exact .refl r
  split
  · exact .refl r
  · exact .modify (fun x => { Grows.refl x with handlerReserved := fun _ => rfl })
      (fun _ => rfl) fun _ => rfl

/-- **A handler is started where it was not.** -/
theorem startHandler_advances (r : Router) (route : ℕ) :
    Advances r [] (if (startHandler r route).2 then [route] else []) (startHandler r route).1 := by
  rw [startHandler]
  split
  · exact .refl r
  rename_i routing hroute
  split
  · exact .refl r
  rename_i hstart
  have hnot : routing.handlerStarted = false := by
    simp only [not_or] at hstart
    simpa using hstart.2.1
  refine ⟨rfl, rfl, rfl, rfl, .modify fun x _ => { Grows.refl x with
    handlerStarted := fun _ => rfl }, ?_, ?_⟩
  · intro p
    simp [outcomes, settled_modify]
  · intro i
    rw [Router.startedCount, Router.startedCount, Router.has, Router.has, getElem?_modify]
    by_cases hi : route = i
    · subst hi
      simp [hroute, hnot]
    · simp [hi]

theorem releaseRoute_advances (turn : TurnKey) (acc : Router × List Event) (route : ℕ) :
    ∃ events, (releaseRoute turn acc route).2 = acc.2 ++ events ∧
      Advances acc.1 events [] (releaseRoute turn acc route).1 := by
  rw [releaseRoute]
  split
  · exact ⟨_, rfl, (finishHandler_advances acc.1 route).trans (finish_advances _ route _ _)⟩
  · exact ⟨[], by simp, .refl acc.1⟩

theorem orphanRoute_advances (acc : Router × List Event) (route : ℕ) :
    ∃ events, (orphanRoute acc route).2 = acc.2 ++ events ∧
      Advances acc.1 events [] (orphanRoute acc route).1 :=
  ⟨_, rfl, finish_advances acc.1 route _ _⟩

theorem Advances.foldl {f : Router × List Event → ℕ → Router × List Event}
    (hf : ∀ acc route, ∃ events, (f acc route).2 = acc.2 ++ events ∧
      Advances acc.1 events [] (f acc route).1) (r : Router) (routes : List ℕ) :
    Advances r (routes.foldl f (r, [])).2 [] (routes.foldl f (r, [])).1 := by
  induction routes using List.reverseRecOn with
  | nil => exact .refl r
  | append_singleton routes route ih =>
    rw [foldl_concat]
    obtain ⟨events, hevents, h⟩ := hf (routes.foldl f (r, [])) route
    rw [hevents]
    exact ih.trans h

theorem recordTurnTerminal_advances (r : Router) (routes : List ℕ) :
    Advances r [] [] (routes.foldl recordTurnTerminal r) := by
  induction routes generalizing r with
  | nil => exact .refl r
  | cons route routes ih =>
    have h : Advances r [] [] (recordTurnTerminal r route) :=
      .modify (fun x => { Grows.refl x with turnTerminalRecorded := fun _ => rfl }) (fun _ => rfl)
        fun _ => rfl
    exact h.trans (ih _)

theorem orphanUnresolved_advances (r : Router) (turn : TurnKey) (turnPhase turnStatus : Bytes) :
    Advances (rememberTurn r turn) (orphanUnresolved r turn turnPhase turnStatus).2 []
      (orphanUnresolved r turn turnPhase turnStatus).1 := by
  rw [orphanUnresolved]
  have h (orphaned calls : List ℕ) := (Advances.foldl orphanRoute_advances (rememberTurn r turn)
    orphaned).trans (recordTurnTerminal_advances _ calls)
  simp only [append_nil] at h
  -- the summary of the turn records no outcome
  exact { h _ _ with settled := (h _ _).settled }

/-! ### What one move may do to the router -/

/-- **What one move may do to the router**: routes keep what they have, only calls of turns that
are not remembered as terminal are admitted, and only routes that are done are dropped. -/
structure RouterStep (r r' : Router) : Prop where
  grow : RoutesGrow r r'
  admitted : ∀ route ∈ r'.order, route ∉ r.order → r.routes[route]? = none ∧
    ∃ routing, r'.routes[route]? = some routing ∧ routing.turn ∉ r.terminalTurns
  dropped : ∀ route ∈ r.order, route ∉ r'.order →
    ∃ routing, r.routes[route]? = some routing ∧ routing.Done

theorem RouterStep.of_order (hgrow : RoutesGrow r r') (horder : r'.order = r.order) :
    RouterStep r r' where
  grow := hgrow
  admitted _ h hnot := absurd (horder ▸ h) hnot
  dropped _ h hnot := absurd (horder.symm ▸ h) hnot

/-- **The map and the order list hold the same routes once**, and the memory of terminal turns is
bounded. -/
structure Structured (r : Router) : Prop where
  calls_order : r.calls.map Prod.snd = r.order
  order_nodup : r.order.Nodup
  keys_nodup : (r.calls.map Prod.fst).Nodup
  calls_key : ∀ call ∈ r.calls, ∃ routing, r.routes[call.2]? = some routing ∧
    routing.key = call.1
  turns : ∀ turn, turn ∈ r.terminalTurns ↔ turn ∈ r.terminalOrder
  turns_nodup : r.terminalOrder.Nodup
  turns_bounded : r.terminalOrder.length ≤ maxTerminalDynamicTurns

theorem Structured.of_grow (h : Structured r) (hcalls : r'.calls = r.calls)
    (horder : r'.order = r.order) (hgrow : RoutesGrow r r')
    (hturns : ∀ turn, turn ∈ r'.terminalTurns ↔ turn ∈ r'.terminalOrder)
    (hnodup : r'.terminalOrder.Nodup)
    (hbounded : r'.terminalOrder.length ≤ maxTerminalDynamicTurns) : Structured r' where
  calls_order := by rw [hcalls, horder, h.calls_order]
  order_nodup := horder ▸ h.order_nodup
  keys_nodup := hcalls ▸ h.keys_nodup
  calls_key call hcall := by
    obtain ⟨routing, hroute, hkey⟩ := h.calls_key call (hcalls ▸ hcall)
    obtain ⟨routing', hroute', hgrows⟩ := hgrow _ routing hroute
    refine ⟨routing', hroute', ?_⟩
    rw [hgrows.identity, hkey]
  turns := hturns
  turns_nodup := hnodup
  turns_bounded := hbounded

theorem Structured.advances
    (h : Structured r) (hadvances : Advances r events starts r') : Structured r' :=
  h.of_grow hadvances.calls hadvances.order hadvances.grow
    (by rw [hadvances.terminalTurns, hadvances.terminalOrder]; exact h.turns)
    (by rw [hadvances.terminalOrder]; exact h.turns_nodup)
    (by rw [hadvances.terminalOrder]; exact h.turns_bounded)

theorem Advances.step
    (h : Advances r events starts r') : RouterStep r r' := .of_order h.grow h.order

/-! ### The end of a turn -/

theorem rememberTurn_routes (r : Router) (turn : TurnKey) :
    (rememberTurn r turn).routes = r.routes ∧ (rememberTurn r turn).calls = r.calls ∧
      (rememberTurn r turn).order = r.order := by
  rw [rememberTurn]
  split
  · exact ⟨rfl, rfl, rfl⟩
  · dsimp only
    split <;> exact ⟨rfl, rfl, rfl⟩

theorem Structured.rememberTurn {r} (h : Structured r) (turn : TurnKey) :
    Structured (rememberTurn r turn) := by
  obtain ⟨hroutes, hcalls, horder⟩ := rememberTurn_routes r turn
  refine h.of_grow hcalls horder (.of_eq hroutes) ?_ ?_ ?_ <;> rw [Agent.rememberTurn]
  all_goals split
  · exact h.turns
  · rename_i hnew
    have hnew' : turn ∉ r.terminalOrder := fun hmem => hnew ((h.turns turn).mpr hmem)
    dsimp only
    split
    · -- the memory was full: its oldest turn is the head of the list
      cases hold : r.terminalOrder with
      | nil => simp_all [maxTerminalDynamicTurns]
      | cons oldest rest =>
        have hnodup := h.turns_nodup
        have hturns := h.turns
        rw [hold] at hnodup hturns hnew'
        intro other
        simp only [cons_append, head?_cons, tail_cons, mem_filter,
          mem_cons, hturns, mem_append, Option.mem_some_iff]
        grind
    · intro other
      simp only [mem_cons, h.turns, mem_append, not_mem_nil, or_false]
      exact or_comm
  · exact h.turns_nodup
  · rename_i hnew
    have hnodup : (r.terminalOrder ++ [turn]).Nodup := by
      have hnew' : turn ∉ r.terminalOrder := fun hmem => hnew ((h.turns turn).mpr hmem)
      exact nodup_append.mpr ⟨h.turns_nodup, by simp, by
        intro a ha b hb
        obtain rfl : b = turn := by simpa using hb
        exact fun heq => hnew' (heq ▸ ha)⟩
    dsimp only
    split
    · exact hnodup.tail
    · exact hnodup
  · exact h.turns_bounded
  · have hlen := h.turns_bounded
    dsimp only
    split
    · simpa using hlen
    · rename_i hsmall
      exact not_lt.mp hsmall

/-! ### Admission and removal -/

/-- `ensure` leaves the router as it is, or admits a call of a turn that is not remembered. -/
theorem ensure_cases (r : Router) (message : List (Bytes × Value))
    (threadID turnID turnPhase : Bytes) :
    (ensure r message threadID turnID turnPhase).1 = r ∨
      ∃ identity : Identity, r.calls.lookup identity.key = none ∧
        identity.turn ∉ r.terminalTurns ∧
        (ensure r message threadID turnID turnPhase).1 = enroll r identity := by
  rw [ensure]
  split
  · exact .inl rfl
  rename_i identity _
  split
  · exact .inl rfl
  rename_i hlookup
  split
  · exact .inl rfl
  rename_i hturn
  split
  · exact .inl rfl
  · exact .inr ⟨identity, hlookup, hturn, rfl⟩

section Admitted

variable {r : Router} {identity : Identity}

theorem getElem?_enroll (r : Router) (identity : Identity) (route : ℕ) :
    (enroll r identity).routes[route]? =
      if route = r.routes.length then some (newRouting identity) else r.routes[route]? := by
  simp only [enroll, getElem?_append]
  grind

theorem enroll_grow (r : Router) (identity : Identity) : RoutesGrow r (enroll r identity) := by
  intro route routing hroute
  refine ⟨routing, ?_, .refl routing⟩
  have hlt := (List.getElem?_eq_some_iff.mp hroute).1
  rw [getElem?_enroll, if_neg (by omega), hroute]

theorem enroll_step (hturn : identity.turn ∉ r.terminalTurns) :
    RouterStep r (enroll r identity) where
  grow := enroll_grow r identity
  admitted route hmem hnot := by
    obtain rfl : route = r.routes.length := by
      simpa [enroll, hnot] using hmem
    exact ⟨by simp, newRouting identity, by rw [getElem?_enroll, if_pos rfl], hturn⟩
  dropped route hmem hnot := absurd (by simp [enroll, hmem]) hnot

theorem Structured.enroll (h : Structured r) (hlookup : r.calls.lookup identity.key = none) :
    Structured (enroll r identity) where
  __ := h
  calls_order := by simp [Agent.enroll, h.calls_order]
  order_nodup := by
    -- the new place is behind all places in use
    refine nodup_append.mpr ⟨h.order_nodup, by simp, ?_⟩
    intro a ha b hb heq
    obtain rfl : b = r.routes.length := by simpa using hb
    rw [← h.calls_order] at ha
    obtain ⟨call, hcall, rfl⟩ := mem_map.mp ha
    obtain ⟨routing, hroute, -⟩ := h.calls_key call hcall
    have hlt := (List.getElem?_eq_some_iff.mp hroute).1
    omega
  keys_nodup := by
    simp only [Agent.enroll, map_append]
    refine nodup_append.mpr ⟨h.keys_nodup, by simp, ?_⟩
    intro a ha b hb heq
    obtain rfl : b = identity.key := by simpa using hb
    obtain ⟨call, hcall, rfl⟩ := mem_map.mp ha
    exact absurd heq (Ne.symm (by
      simpa using lookup_eq_none_iff.mp hlookup call hcall))
  calls_key call hcall := by
    rcases mem_append.mp hcall with hold | hnew
    · obtain ⟨routing, hroute, hkey⟩ := h.calls_key call hold
      obtain ⟨routing', hroute', hgrows⟩ := enroll_grow r identity _ routing hroute
      exact ⟨routing', hroute', by rw [hgrows.identity, hkey]⟩
    · obtain rfl : call = (identity.key, r.routes.length) := by simpa using hnew
      exact ⟨newRouting identity, by rw [getElem?_enroll, if_pos rfl], rfl⟩

theorem settled_enroll (p : ℕ × TerminalOutcome) : (enroll r identity).settled p = r.settled p := by
  rw [Router.settled, Router.settled, getElem?_enroll]
  split
  · rename_i hp
    simp [newRouting, hp]
  · rfl

theorem startedCount_enroll (route : ℕ) :
    (enroll r identity).startedCount route = r.startedCount route := by
  rw [Router.startedCount, Router.startedCount, Router.has, Router.has, getElem?_enroll]
  split
  · rename_i hp
    simp [newRouting, hp]
  · rfl

end Admitted

theorem prune_step (r : Router) : RouterStep r (prune r) where
  grow := .of_eq rfl
  admitted route hmem hnot := absurd (mem_of_mem_filter hmem) hnot
  dropped route hmem hnot := by
    have hdone : r.has (fun routing => routing.Done) route = true := by
      by_contra hdone
      exact hnot (mem_filter.mpr ⟨hmem, by simpa using hdone⟩)
    rw [Router.has] at hdone
    cases hroute : r.routes[route]? with
    | none => simp [hroute] at hdone
    | some routing => exact ⟨routing, rfl, by simpa [hroute] using hdone⟩

theorem Structured.prune {r} (h : Structured r) : Structured (prune r) where
  __ := h
  calls_order := by
    simp only [Agent.prune, ← h.calls_order, filter_map]
    rfl
  order_nodup := h.order_nodup.filter _
  keys_nodup := h.keys_nodup.sublist (filter_sublist.map _)
  calls_key call hcall := h.calls_key call (mem_of_mem_filter hcall)

/-! ### What one move accounts for -/

/-- The outcomes that actions will record. -/
def pendingOutcomes (actions : List Action) : List (ℕ × TerminalOutcome) :=
  actions.filterMap fun
    | .record event => event.outcome
    | _ => none

theorem pendingOutcomes_record (events : List Event) :
    pendingOutcomes (events.map .record) = outcomes events := by
  simp only [pendingOutcomes, outcomes, filterMap_map]
  rfl

/-- The outcomes that were recorded. -/
def Shared.recorded (s : Shared) : List (ℕ × TerminalOutcome) := outcomes (s.log.map Prod.snd)

/-- What a section does: the actions it takes and leaves, and what they account for. -/
structure Effect (s : Shared) (old new : List Action) (s' : Shared) : Prop where
  step : RouterStep s.router s'.router
  structured : Structured s.router → Structured s'.router
  balance : ∀ p, s'.recorded.count p + (pendingOutcomes new).count p + s.router.settled p =
    s.recorded.count p + (pendingOutcomes old).count p + s'.router.settled p
  starts : ∀ route, s'.started.count route + s.router.startedCount route =
    s.started.count route + s'.router.startedCount route

theorem Effect.refl (s : Shared) : Effect s [] [] s :=
  ⟨.of_order (.of_eq rfl) rfl, id, fun _ => rfl, fun _ => rfl⟩

theorem Effect.of_advances {r'} (after : List Action)
    (h : Advances s.router events starts r') (hafter : pendingOutcomes after = []) :
    Effect s [] (events.map .record ++ after)
      { s with router := r', started := s.started ++ starts } where
  step := h.step
  structured hs := hs.advances h
  balance p := by
    have hp := h.settled p
    rw [pendingOutcomes, filterMap_append, ← pendingOutcomes, ← pendingOutcomes, hafter,
      pendingOutcomes_record, append_nil]
    simp only [Shared.recorded, pendingOutcomes, filterMap_nil, count_nil]
    omega
  starts route := by
    have hroute := h.started route
    simp only [count_append]
    omega

theorem ensure_effect (s : Shared) (message : List (Bytes × Value))
    (threadID turnID turnPhase : Bytes) :
    Effect s [] [] { s with router := (ensure s.router message threadID turnID turnPhase).1 } := by
  rcases ensure_cases s.router message threadID turnID turnPhase with h | ⟨identity, hl, ht, h⟩
  · rw [h]
    exact .refl s
  rw [h]
  refine ⟨enroll_step ht, fun hs => hs.enroll hl, fun p => ?_, fun route => ?_⟩
  · simp [settled_enroll, Shared.recorded]
  · simp [startedCount_enroll]

theorem orphanUnresolved_effect (s : Shared) (turn : TurnKey) (turnPhase turnStatus : Bytes) :
    Effect s []
      ((orphanUnresolved s.router turn turnPhase turnStatus).2.map .record ++ [.prune])
      { s with router := (orphanUnresolved s.router turn turnPhase turnStatus).1 } := by
  obtain ⟨hroutes, hcalls, horder⟩ := rememberTurn_routes s.router turn
  have h := orphanUnresolved_advances s.router turn turnPhase turnStatus
  have heffect := Effect.of_advances (s := { s with router := rememberTurn s.router turn })
    [.prune] h rfl
  refine ⟨.of_order ((RoutesGrow.of_eq hroutes).trans h.grow) (h.order.trans horder),
    fun hs => heffect.structured (hs.rememberTurn turn), fun p => ?_, fun route => ?_⟩
  · have hsettled : (rememberTurn s.router turn).settled p = s.router.settled p := by
      rw [Router.settled, Router.settled, hroutes]
    exact hsettled ▸ heffect.balance p
  · have hstarted : (rememberTurn s.router turn).startedCount route =
        s.router.startedCount route := by
      rw [Router.startedCount, Router.startedCount, Router.has, Router.has, hroutes]
    simpa [hstarted] using heffect.starts route

/-- **The first section of every method.** -/
theorem invoke_effect (call : Call) (s : Shared) :
    Effect s [] (invoke call s).2 (invoke call s).1 := by
  cases call with
  | ensure message threadID turnID turnPhase => exact ensure_effect s _ _ _ _
  | markResultReady route =>
    simpa [invoke] using Effect.of_advances [] (markResultReady_advances _ route) rfl
  | markResponseWriteAttempted route =>
    simpa [invoke] using
      Effect.of_advances [] (markResponseWriteAttempted_advances _ route) rfl
  | finish route outcome itemStatus =>
    rw [invoke]
    split
    · exact .refl s
    · simpa using Effect.of_advances [] (finish_advances _ route _ _) rfl
  | reserveHandler route =>
    simpa [invoke] using Effect.of_advances [] (reserveHandler_advances _ route) rfl
  | startHandler route =>
    have h := Effect.of_advances [] (startHandler_advances s.router route) rfl
    rw [invoke]
    split at h <;> simp_all
  | releaseUnstarted turn =>
    simpa [invoke, releaseUnstarted] using Effect.of_advances [.prune]
      (Advances.foldl (releaseRoute_advances turn) s.router s.router.order) rfl
  | recordDelivery params item turn =>
    rw [invoke]
    split
    · exact .refl s
    split
    · exact .refl s
    split
    all_goals exact ⟨.of_order (.of_eq rfl) rfl, id, fun _ => rfl, fun _ => rfl⟩
  | finishHandler route =>
    simpa [invoke] using
      Effect.of_advances [.prune] (finishHandler_advances s.router route) rfl
  | orphanUnresolved turn turnPhase turnStatus => exact orphanUnresolved_effect s _ _ _

/-- **Every further action.** -/
theorem perform_effect (call : Call) (action : Action) (s : Shared) :
    Effect s [action] (perform call action s).2 (perform call action s).1 := by
  cases action with
  | record event =>
    refine ⟨.of_order (.of_eq rfl) rfl, id, fun p => ?_, fun _ => rfl⟩
    cases hevent : event.outcome <;>
      simp [perform, Shared.recorded, outcomes, pendingOutcomes, hevent]
  | finishDelivered route itemStatus =>
    have h := Effect.of_advances [] (finish_advances s.router route .delivered itemStatus)
      rfl
    refine ⟨h.step, h.structured, fun p => ?_, fun route => ?_⟩
    · simpa [perform, pendingOutcomes, Shared.recorded] using h.balance p
    · simpa [perform] using h.starts route
  | prune => exact ⟨prune_step s.router, .prune, fun _ => rfl, fun _ => rfl⟩

/-! ### Evidence of delivery -/

/-- **What a notification must show**: the call's result was ready, a write of the response was
attempted, and the item has the call's identity, its tool and a terminal status. -/
structure Evidence (r : Router) (params item : List (Bytes × Value)) (turn : TurnKey) (route : ℕ)
    (status : Bytes) : Prop where
  threadId : member params (ascii "threadId") = some (.string turn.threadID)
  turnId : member params (ascii "turnId") = some (.string turn.turnID)
  itemStatus : member item (ascii "status") = some (.string status)
  terminal : status = ascii "completed" ∨ status = ascii "failed"
  routing : ∃ routing, r.routes[route]? = some routing ∧ routing.turn = turn ∧
    routing.resultReady ∧ routing.responseWriteAttempted ∧
    member item (ascii "id") = some (.string routing.callID) ∧
    member item (ascii "tool") = some (.string routing.tool)

theorem Evidence.mono {status : Bytes} (h : Evidence r params item turn route status)
    (hgrow : RoutesGrow r r') : Evidence r' params item turn route status where
  __ := h
  routing := by
    obtain ⟨routing, hroute, hturn, hready, hattempted, hid, htool⟩ := h.routing
    obtain ⟨routing', hroute', hgrows⟩ := hgrow route routing hroute
    refine ⟨routing', hroute', ?_, hgrows.resultReady hready,
      hgrows.responseWriteAttempted hattempted, ?_, ?_⟩
    · rw [hgrows.identity, hturn]
    · rw [hgrows.identity, hid]
    · rw [hgrows.identity, htool]

/-- The route and status that an action reports as delivered. -/
def Action.delivers : Action → Option (ℕ × Bytes)
  | .record (.result route _ .delivered status) => some (route, status)
  | .finishDelivered route status => some (route, status)
  | _ => none

theorem textMember_eq_some {members} {name text : Bytes}
    (h : textMember members name = some text) : member members name = some (.string text) := by
  rw [textMember] at h
  split at h
  · rename_i found hfound
    split at h
    · cases h
    · rw [hfound, Option.some.inj h]
  · cases h

theorem deliveredRoute_eq_some {r} (h : deliveredRoute r params item turn = some route) :
    member params (ascii "threadId") = some (.string turn.threadID) ∧
      member params (ascii "turnId") = some (.string turn.turnID) ∧
      ∃ callID, member item (ascii "id") = some (.string callID) ∧
        (⟨turn, callID⟩, route) ∈ r.calls := by
  rw [deliveredRoute] at h
  split at h
  · rename_i threadID turnID hthread hturn
    split at h
    · rename_i heq
      obtain ⟨callID, hid, hlookup⟩ := Option.bind_eq_some_iff.mp h
      refine ⟨heq.1 ▸ hthread, heq.2 ▸ hturn, callID, textMember_eq_some hid, ?_⟩
      obtain ⟨before, after, hcalls, -⟩ := lookup_eq_some_iff.mp hlookup
      simp [hcalls]
    · cases h
  · cases h

theorem deliveryFailures_eq_nil {routing item} (h : deliveryFailures routing item = []) :
    routing.resultReady ∧ routing.responseWriteAttempted ∧
      member item (ascii "status") = some (.string (itemStatus item)) ∧
      (itemStatus item = ascii "completed" ∨ itemStatus item = ascii "failed") ∧
      member item (ascii "tool") = some (.string routing.tool) := by
  simp only [deliveryFailures, append_eq_nil_iff] at h
  obtain ⟨⟨⟨hready, hattempted⟩, hstatus⟩, htool⟩ := h
  refine ⟨by simpa using hready, by simpa using hattempted, ?_⟩
  rw [itemStatus]
  split at hstatus
  · rename_i status hmember
    split at htool
    · rename_i tool htoolMember
      refine ⟨hmember, ?_, ?_⟩
      · simpa [Decidable.or_iff_not_imp_left] using hstatus
      · simp_all
    · cases htool
  · cases hstatus

/-- **The evidence that `recordDelivery` finds in its section.** -/
theorem invoke_evidence (hs : Structured s.router)
    {status : Bytes} (hmem : action ∈ (invoke (.recordDelivery params item turn) s).2)
    (hdelivers : action.delivers = some (route, status)) :
    Evidence s.router params item turn route status := by
  rw [invoke] at hmem
  split at hmem
  · simp at hmem
  rename_i found hfound
  split at hmem
  · simp at hmem
  rename_i routing hroute
  split at hmem
  · rename_i hfailures
    obtain rfl : action = .finishDelivered found (itemStatus item) := by simpa using hmem
    obtain ⟨rfl, rfl⟩ : found = route ∧ itemStatus item = status := by
      simpa [Action.delivers] using hdelivers
    obtain ⟨hthread, hturn, callID, hid, hcall⟩ := deliveredRoute_eq_some hfound
    obtain ⟨hready, hattempted, hstatus, hterminal, htool⟩ := deliveryFailures_eq_nil hfailures
    obtain ⟨routing', hroute', hkey⟩ := hs.calls_key _ hcall
    obtain rfl : routing = routing' := by simpa [hroute] using hroute'
    have hid' : routing.callID = callID := congrArg CallKey.callID hkey
    exact ⟨hthread, hturn, hstatus, hterminal, routing, hroute,
      congrArg CallKey.toTurnKey hkey, hready, hattempted, hid' ▸ hid, htool⟩
  · obtain rfl : action = .record _ := by simpa using hmem
    cases hdelivers

/-- What an action leaves to do reports nothing that the action did not. -/
theorem perform_delivers {action new} {p : ℕ × Bytes} (hmem : new ∈ (perform call action s).2)
    (hdelivers : new.delivers = some p) : action.delivers = some p := by
  cases action with
  | record event | prune => simp [perform] at hmem
  | finishDelivered route status =>
    obtain ⟨event, hevent, rfl⟩ := mem_map.mp hmem
    rw [finish] at hevent
    split at hevent
    · simp at hevent
    rename_i routing hroute
    split at hevent
    · simp at hevent
    rw [outcomes_eventOf hroute] at hevent
    obtain rfl := mem_singleton.mp hevent
    exact hdelivers

/-! ### All runs -/

/-- **What holds in every state of a run.** -/
structure RouterInvariant (s : System Shared Call Action) : Prop where
  structured : Structured s.shared.router
  /-- A terminal outcome has one event of its kind, recorded or about to be; no other event names
  an outcome. -/
  recorded : ∀ p, s.shared.recorded.count p + (pendingOutcomes s.actions).count p =
    s.shared.router.settled p
  /-- A handler is started at most once. -/
  started : ∀ route, s.shared.started.count route = s.shared.router.startedCount route
  /-- Where `recordDelivery` reported a call as delivered, there was evidence. -/
  delivered : ∀ params item turn route identity status,
    (.recordDelivery params item turn, .result route identity .delivered status) ∈ s.shared.log →
    Evidence s.shared.router params item turn route status
  delivering : ∀ thread ∈ s.threads, ∀ params item turn,
    thread.call = .recordDelivery params item turn → ∀ action ∈ thread.rest, ∀ route status,
    action.delivers = some (route, status) →
    Evidence s.shared.router params item turn route status

theorem invariant_init : RouterInvariant ⟨⟨Router.new, [], []⟩, []⟩ where
  structured := ⟨rfl, by simp [Router.new], by simp [Router.new], by simp [Router.new],
    by simp [Router.new], by simp [Router.new], by simp [Router.new]⟩
  recorded p := by simp [Shared.recorded, outcomes, pendingOutcomes, System.actions,
    Router.settled, Router.new]
  started route := by simp [Router.startedCount, Router.has, Router.new]
  delivered := by simp
  delivering := by simp

theorem pendingOutcomes_append (xs ys : List Action) :
    pendingOutcomes (xs ++ ys) = pendingOutcomes xs ++ pendingOutcomes ys := filterMap_append

theorem count_pendingOutcomes {s : System Shared Call Action} {thread others}
    (h : s.threads.Perm (thread :: others)) (p : ℕ × TerminalOutcome) :
    (pendingOutcomes s.actions).count p = (pendingOutcomes thread.rest).count p +
      (pendingOutcomes (others.flatMap Thread.rest)).count p := by
  have hperm : (pendingOutcomes s.actions).Perm _ := (actions_perm h).filterMap _
  rw [hperm.count_eq, ← pendingOutcomes, pendingOutcomes_append, count_append]

theorem invoke_log (call : Call) (s : Shared) : (invoke call s).1.log = s.log := by
  cases call with
  | finish route outcome itemStatus =>
    rw [invoke]
    split <;> rfl
  | recordDelivery params item turn =>
    rw [invoke]
    split
    · rfl
    split
    · rfl
    · split <;> rfl
  | _ => rfl

theorem perform_log {entry} (h : entry ∈ (perform call action s).1.log) :
    entry ∈ s.log ∨ entry.1 = call ∧ action = .record entry.2 := by
  cases action with
  | record event =>
    rcases mem_append.mp h with hold | hnew
    · exact .inl hold
    · obtain rfl := mem_singleton.mp hnew
      exact .inr ⟨rfl, rfl⟩
  | finishDelivered route status | prune => exact .inl h

theorem invariant_call {s s' : System Shared Call Action} (h : RouterInvariant s)
    (hshared : s'.shared = (invoke call s.shared).1)
    (hthreads : s'.threads.Perm (⟨call, (invoke call s.shared).2⟩ :: s.threads)) :
    RouterInvariant s' where
  structured := hshared ▸ (invoke_effect call s.shared).structured h.structured
  recorded p := by
    have hbalance := (invoke_effect call s.shared).balance p
    have hbefore := h.recorded p
    have hpending : (pendingOutcomes s'.actions).count p =
        (pendingOutcomes (invoke call s.shared).2).count p +
          (pendingOutcomes s.actions).count p := count_pendingOutcomes hthreads p
    have hnone : (pendingOutcomes []).count p = 0 := rfl
    rw [hpending, hshared]
    omega
  started route := by
    have hstarts := (invoke_effect call s.shared).starts route
    have hbefore := h.started route
    rw [hshared]
    omega
  delivered params item turn route identity status hmem := by
    rw [hshared, invoke_log] at hmem
    rw [hshared]
    exact (h.delivered _ _ _ _ _ _ hmem).mono (invoke_effect call s.shared).step.grow
  delivering thread hthread params item turn hcall action haction route status hdelivers := by
    have hgrow := (invoke_effect call s.shared).step.grow
    rw [hshared]
    rcases mem_cons.mp (hthreads.mem_iff.mp hthread) with rfl | hold
    · cases hcall
      exact (invoke_evidence h.structured haction hdelivers).mono hgrow
    · exact (h.delivering thread hold _ _ _ hcall action haction _ _ hdelivers).mono hgrow

theorem invariant_action {s s' : System Shared Call Action} {rest others} (h : RouterInvariant s)
    (hbefore : s.threads.Perm (⟨call, action :: rest⟩ :: others))
    (hshared : s'.shared = (perform call action s.shared).1)
    (hafter : s'.threads.Perm (⟨call, (perform call action s.shared).2 ++ rest⟩ :: others)) :
    RouterInvariant s' := by
  have heffect := perform_effect call action s.shared
  have hthread : ⟨call, action :: rest⟩ ∈ s.threads := hbefore.mem_iff.mpr (by simp)
  refine ⟨hshared ▸ heffect.structured h.structured, fun p => ?_, fun route => ?_, ?_, ?_⟩
  · have hbalance := heffect.balance p
    have hrecorded := h.recorded p
    have hold := count_pendingOutcomes hbefore p
    have hnew := count_pendingOutcomes hafter p
    rw [← singleton_append, pendingOutcomes_append, count_append] at hold
    rw [pendingOutcomes_append, count_append] at hnew
    rw [hnew, hshared]
    omega
  · have hstarts := heffect.starts route
    have hstarted := h.started route
    rw [hshared]
    omega
  · intro params item turn route identity status hmem
    rw [hshared] at hmem ⊢
    refine Evidence.mono ?_ heffect.step.grow
    rcases perform_log hmem with hold | ⟨hcall, haction⟩
    · exact h.delivered _ _ _ _ _ _ hold
    · exact h.delivering _ hthread _ _ _ hcall.symm action (by simp) _ _ (by rw [haction]; rfl)
  · intro thread hmem params item turn hcall new hnew route status hdelivers
    rw [hshared]
    refine Evidence.mono ?_ heffect.step.grow
    rcases mem_cons.mp (hafter.mem_iff.mp hmem) with rfl | hother
    · rcases mem_append.mp hnew with hmade | hrest
      · exact h.delivering _ hthread _ _ _ hcall action (by simp) _ _
          (perform_delivers hmade hdelivers)
      · exact h.delivering _ hthread _ _ _ hcall new (by simp [hrest]) _ _ hdelivers
    · exact h.delivering thread (hbefore.mem_iff.mpr (by simp [hother])) _ _ _ hcall new hnew _ _
        hdelivers

theorem step_router (s : System Shared Call Action) (move : Move Call) :
    RouterStep s.shared.router (step operations s move).shared.router := by
  rcases step_cases operations s move with h | ⟨call, h, -⟩ | ⟨call, action, rest, others, -, h, -⟩
  · rw [h]
    exact .of_order (.of_eq rfl) rfl
  · rw [h]
    exact (invoke_effect call s.shared).step
  · rw [h]
    exact (perform_effect call action s.shared).step

theorem routerRun_invariant (moves : List (Move Call)) : RouterInvariant (routerRun moves) := by
  refine run_induction invariant_init (fun s move h => ?_) moves
  rcases step_cases operations s move with heq | ⟨call, hshared, hthreads⟩ |
    ⟨call, action, rest, others, hbefore, hshared, hafter⟩
  · rw [heq]
    exact h
  · exact invariant_call h hshared hthreads
  · exact invariant_action h hbefore hshared hafter

/-- What the actions of a call weigh: `finish` may record one event. -/
def Action.weight : Action → ℕ
  | .finishDelivered _ _ => 2
  | _ => 1

theorem perform_weight (call : Call) (action : Action) (s : Shared) :
    ((perform call action s).2.map Action.weight).sum < action.weight := by
  cases action with
  | record event | prune => exact Nat.one_pos
  | finishDelivered route status =>
    simp only [perform, finish]
    split
    · exact Nat.two_pos
    rename_i routing hroute
    split
    · exact Nat.two_pos
    · rw [outcomes_eventOf hroute]
      exact Nat.one_lt_two

/-- **The router over every interleaving of its methods**: the invariant holds after every run, the
calls in progress can return and then every terminal outcome has exactly its one event, and one
more move changes the router only as `RouterStep` says. -/
theorem dynamicCallRouter_sound (moves : List (Move Call)) :
    RouterInvariant (routerRun moves) ∧
    ((routerRun moves).actions = [] → ∀ p,
      (routerRun moves).shared.recorded.count p = (routerRun moves).shared.router.settled p) ∧
    (∃ advances : List ℕ, (routerRun (moves ++ advances.map .advance)).actions = []) ∧
    ∀ move, RouterStep (routerRun moves).shared.router
      (routerRun (moves ++ [move])).shared.router := by
  refine ⟨routerRun_invariant moves, ?_, exists_idle Action.weight perform_weight _ moves, ?_⟩
  · intro hidle p
    have h := (routerRun_invariant moves).recorded p
    rw [hidle] at h
    exact h
  · intro move
    rw [routerRun, routerRun, run_snoc]
    exact step_router _ move

end Carcer.Agent
