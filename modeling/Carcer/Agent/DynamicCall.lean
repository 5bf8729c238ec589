import Carcer.Json.Decode
import Carcer.Machine.Interleaving

/-!
# The router of dynamic calls

The router of `internal/agent/dynamic_call.go`: the app-server's calls of tools, from their
admission to their one terminal outcome. Every method of the router is a few sections under its lock
with events recorded in between, and the sections of methods that run at one time interleave. A
route is a pointer, here its place in the list of all routes ever admitted, so that a caller may
hold a route that the router has dropped.

## Main definitions

* `Routing`, `Router`: a route, and what the router holds
* `ensure`, `finish`, `reserveHandler`, `startHandler`, `releaseUnstarted`, `recordDelivery`,
  `finishHandler`, `orphanUnresolved`, `prune`: the sections of the methods
* `Call`, `Action`, `operations`: the methods as interleaved calls
-/

namespace Carcer.Agent

open Carcer.Wire Carcer.Json Carcer.Machine.Interleaving

/-! ### Routes -/

/-- The terminal outcomes of a call. -/
inductive TerminalOutcome
  | delivered
  | rejected
  | orphaned
  | yielded
  deriving DecidableEq

/-- The outcome that a text names. -/
def TerminalOutcome.ofText (text : Bytes) : Option TerminalOutcome :=
  if text = ascii "delivered" then some .delivered
  else if text = ascii "rejected" then some .rejected
  else if text = ascii "orphaned" then some .orphaned
  else if text = ascii "yielded" then some .yielded
  else none

/-- What an event says about a route: `identity`. -/
structure Identity where
  requestID : Value
  callID : Bytes
  threadID : Bytes
  turnID : Bytes
  turnPhase : Bytes
  tool : Bytes

/-- `dynamicCallRouting`. -/
structure Routing extends Identity where
  resultReady : Bool
  responseWriteAttempted : Bool
  terminalOutcome : Option TerminalOutcome
  turnTerminalRecorded : Bool
  handlerFinished : Bool
  handlerReserved : Bool
  handlerStarted : Bool

/-- `dynamicTurnKey`. -/
structure TurnKey where
  threadID : Bytes
  turnID : Bytes
  deriving DecidableEq

/-- `dynamicCallKey`. -/
structure CallKey extends TurnKey where
  callID : Bytes
  deriving DecidableEq

def Identity.turn (identity : Identity) : TurnKey := ⟨identity.threadID, identity.turnID⟩

def Identity.key (identity : Identity) : CallKey := ⟨identity.turn, identity.callID⟩

/-- The condition on which `prune` drops a route. -/
def Routing.Done (routing : Routing) : Prop :=
  routing.terminalOutcome ≠ none ∧ routing.turnTerminalRecorded ∧ routing.handlerFinished

instance (routing : Routing) : Decidable routing.Done := inferInstanceAs (Decidable (_ ∧ _ ∧ _))

/-- Why a notification is no evidence of delivery. -/
inductive DeliveryFailure
  /-- "result_not_ready" -/
  | resultNotReady
  /-- "response_not_attempted" -/
  | responseNotAttempted
  /-- "invalid_status" -/
  | invalidStatus
  /-- "tool_mismatch" -/
  | toolMismatch
  deriving DecidableEq

/-- What the recorder is called with. -/
inductive Event
  /-- "tool_result_ready" -/
  | resultReady (route : ℕ) (identity : Identity)
  /-- "tool_response_write_attempted" -/
  | responseWriteAttempted (route : ℕ) (identity : Identity)
  /-- "tool_result_" with the outcome, and "item_status" where there is one -/
  | result (route : ℕ) (identity : Identity) (outcome : TerminalOutcome) (itemStatus : Bytes)
  /-- "tool_delivery_notification_rejected" -/
  | deliveryRejected (route : ℕ) (identity : Identity) (failures : List DeliveryFailure)
  /-- "turn_dynamic_calls_terminal" -/
  | turnTerminal (turn : TurnKey) (turnPhase turnStatus : Bytes) (calls : ℕ) (pending : List Bytes)

/-- `dynamicCallRouter`, with all routes it ever admitted. -/
structure Router where
  routes : List Routing
  calls : List (CallKey × ℕ)
  order : List ℕ
  terminalTurns : List TurnKey
  terminalOrder : List TurnKey

def maxTerminalDynamicTurns : ℕ := 256

namespace Router

/-- `newDynamicCallRouter`. -/
def new : Router := ⟨[], [], [], [], []⟩

def modify (r : Router) (route : ℕ) (f : Routing → Routing) : Router :=
  { r with routes := r.routes.modify route f }

/-- The identity of a route in an event. -/
def identity (r : Router) (route : ℕ) : Option Identity := r.routes[route]?.map Routing.toIdentity

def eventOf (r : Router) (route : ℕ) (event : Identity → Event) : List Event :=
  (r.identity route).toList.map event

end Router

/-! ### Admission -/

def dynamicCallInteger (literal : Bytes) : Bool :=
  let digits := match literal with
    | 0x2d :: rest => rest
    | text => text
  digits ≠ [] ∧ digits.all isDigit

/-- `dynamicCallRequestID`, of a decoded message. -/
def dynamicCallRequestID : Value → Option Value
  | .string text => some (.string text)
  | .number literal => if dynamicCallInteger literal then some (.number literal) else none
  | _ => none

/-- A member that is a text, and not the empty one. -/
def textMember (members : List (Bytes × Value)) (name : Bytes) : Option Bytes :=
  match member members name with
  | some (.string text) => if text = [] then none else some text
  | _ => none

/-- The identity that a request asks for. -/
def requestedIdentity (message : List (Bytes × Value)) (turnPhase : Bytes) : Option Identity := do
  match member message (ascii "params") with
  | some (.object params) =>
    let requestID ← (member message (ascii "id")).bind dynamicCallRequestID
    let callID ← textMember params (ascii "callId")
    let threadID ← textMember params (ascii "threadId")
    let turnID ← textMember params (ascii "turnId")
    let tool ← textMember params (ascii "tool")
    return ⟨requestID, callID, threadID, turnID, turnPhase, tool⟩
  | _ => none

def newRouting (identity : Identity) : Routing :=
  ⟨identity, false, false, none, false, false, false, false⟩

/-- The router with a new route. -/
def enroll (r : Router) (identity : Identity) : Router :=
  { r with
    routes := r.routes ++ [newRouting identity]
    calls := r.calls ++ [(identity.key, r.routes.length)]
    order := r.order ++ [r.routes.length] }

/-- `ensure`: the route of a call, which is admitted when it belongs to the current turn. -/
def ensure (r : Router) (message : List (Bytes × Value)) (threadID turnID turnPhase : Bytes) :
    Router × Option ℕ :=
  match requestedIdentity message turnPhase with
  | none => (r, none)
  | some identity =>
    match r.calls.lookup identity.key with
    | some existing => (r, some existing)
    | none =>
      if identity.turn ∈ r.terminalTurns then (r, none)
      else if identity.turn ≠ ⟨threadID, turnID⟩ ∨ turnPhase = [] then (r, none)
      else (enroll r identity, some r.routes.length)

/-! ### The sections of the methods -/

/-- The section of `markResultReady`. -/
def markResultReady (r : Router) (route : ℕ) : Router × List Event :=
  match r.routes[route]? with
  | none => (r, [])
  | some routing =>
    if routing.resultReady then (r, [])
    else (r.modify route fun routing => { routing with resultReady := true },
      r.eventOf route (.resultReady route))

/-- The section of `markResponseWriteAttempted`. -/
def markResponseWriteAttempted (r : Router) (route : ℕ) : Router × List Event :=
  match r.routes[route]? with
  | none => (r, [])
  | some routing =>
    if routing.responseWriteAttempted then (r, [])
    else (r.modify route fun routing => { routing with responseWriteAttempted := true },
      r.eventOf route (.responseWriteAttempted route))

/-- The section of `finish` for an outcome. -/
def finish (r : Router) (route : ℕ) (outcome : TerminalOutcome) (itemStatus : Bytes) :
    Router × List Event :=
  match r.routes[route]? with
  | none => (r, [])
  | some routing =>
    if routing.terminalOutcome ≠ none then (r, [])
    else (r.modify route fun routing => { routing with terminalOutcome := some outcome },
      r.eventOf route fun identity => .result route identity outcome itemStatus)

def reserveHandler (r : Router) (route : ℕ) : Router × Bool :=
  match r.routes[route]? with
  | none => (r, false)
  | some routing =>
    if routing.handlerReserved then (r, false)
    else (r.modify route fun routing => { routing with handlerReserved := true }, true)

def startHandler (r : Router) (route : ℕ) : Router × Bool :=
  match r.routes[route]? with
  | none => (r, false)
  | some routing =>
    if routing.handlerReserved = false ∨ routing.handlerStarted ∨ routing.handlerFinished then
      (r, false)
    else (r.modify route fun routing => { routing with handlerStarted := true }, true)

/-- The section of `finishHandler`. -/
def finishHandler (r : Router) (route : ℕ) : Router :=
  r.modify route fun routing => { routing with handlerFinished := true }

/-- A route that `releaseUnstarted` releases. -/
def Routing.Unstarted (turn : TurnKey) (routing : Routing) : Prop :=
  routing.turn = turn ∧ routing.handlerReserved = true ∧ routing.handlerStarted = false ∧
    routing.handlerFinished = false

instance (turn : TurnKey) (routing : Routing) : Decidable (routing.Unstarted turn) :=
  inferInstanceAs (Decidable (_ ∧ _ ∧ _ ∧ _))

/-- Whether a route has a property. -/
def Router.has (r : Router) (p : Routing → Bool) (route : ℕ) : Bool := (r.routes[route]?).any p

/-- One turn of the loop of `releaseUnstarted`, which sets what `finishHandler` and `finish` set. -/
def releaseRoute (turn : TurnKey) (acc : Router × List Event) (route : ℕ) : Router × List Event :=
  if acc.1.has (fun routing => routing.Unstarted turn) route then
    let finished := finish (finishHandler acc.1 route) route .rejected []
    (finished.1, acc.2 ++ finished.2)
  else acc

/-- The section of `releaseUnstarted`. -/
def releaseUnstarted (r : Router) (turn : TurnKey) : Router × List Event :=
  r.order.foldl (releaseRoute turn) (r, [])

/-- The failures of a notification about a route. -/
def deliveryFailures (routing : Routing) (item : List (Bytes × Value)) : List DeliveryFailure :=
  (if routing.resultReady then [] else [.resultNotReady]) ++
  (if routing.responseWriteAttempted then [] else [.responseNotAttempted]) ++
  (match member item (ascii "status") with
    | some (.string status) =>
      if status = ascii "completed" ∨ status = ascii "failed" then [] else [.invalidStatus]
    | _ => [.invalidStatus]) ++
  (match member item (ascii "tool") with
    | some (.string tool) => if tool = routing.tool then [] else [.toolMismatch]
    | _ => [.toolMismatch])

/-- The route that a notification is about. -/
def deliveredRoute (r : Router) (params item : List (Bytes × Value)) (turn : TurnKey) : Option ℕ :=
  match member params (ascii "threadId"), member params (ascii "turnId") with
  | some (.string threadID), some (.string turnID) =>
    if threadID = turn.threadID ∧ turnID = turn.turnID then
      (textMember item (ascii "id")).bind fun callID => r.calls.lookup ⟨turn, callID⟩
    else none
  | _, _ => none

/-- The status of a notification. -/
def itemStatus (item : List (Bytes × Value)) : Bytes :=
  match member item (ascii "status") with
  | some (.string status) => status
  | _ => []

/-- The end of a turn is remembered, the oldest one forgotten. -/
def rememberTurn (r : Router) (turn : TurnKey) : Router :=
  if turn ∈ r.terminalTurns then r
  else
    let order := r.terminalOrder ++ [turn]
    if order.length > maxTerminalDynamicTurns then
      { r with
        terminalTurns := (turn :: r.terminalTurns).filter fun other => other ∉ order.head?
        terminalOrder := order.tail }
    else { r with terminalTurns := turn :: r.terminalTurns, terminalOrder := order }

/-- One turn of the loop of `orphanUnresolved` over the pending calls. -/
def orphanRoute (acc : Router × List Event) (route : ℕ) : Router × List Event :=
  let finished := finish acc.1 route .orphaned []
  (finished.1, acc.2 ++ finished.2)

/-- One turn of the last loop of `orphanUnresolved`. -/
def recordTurnTerminal (r : Router) (route : ℕ) : Router :=
  r.modify route fun routing => { routing with turnTerminalRecorded := true }

/-- The section of `orphanUnresolved`. -/
def orphanUnresolved (r : Router) (turn : TurnKey) (turnPhase turnStatus : Bytes) :
    Router × List Event :=
  let r := rememberTurn r turn
  let calls := r.order.filter (r.has fun routing => routing.turn = turn)
  let pending := calls.filter (r.has fun routing => routing.terminalOutcome = none)
  let orphaned := if turnStatus ≠ ascii "interrupted" then pending else []
  let settled := orphaned.foldl orphanRoute (r, [])
  (calls.foldl recordTurnTerminal settled.1,
    .turnTerminal turn turnPhase turnStatus calls.length
        (pending.filterMap fun route => (r.identity route).map Identity.callID) :: settled.2)

def prune (r : Router) : Router :=
  { r with
    calls := r.calls.filter fun call => !r.has (fun routing => routing.Done) call.2
    order := r.order.filter fun route => !r.has (fun routing => routing.Done) route }

/-! ### The methods as interleaved calls -/

inductive Call
  | ensure (message : List (Bytes × Value)) (threadID turnID turnPhase : Bytes)
  | markResultReady (route : ℕ)
  | markResponseWriteAttempted (route : ℕ)
  | finish (route : ℕ) (outcome itemStatus : Bytes)
  | reserveHandler (route : ℕ)
  | startHandler (route : ℕ)
  | releaseUnstarted (turn : TurnKey)
  | recordDelivery (params item : List (Bytes × Value)) (turn : TurnKey)
  | finishHandler (route : ℕ)
  | orphanUnresolved (turn : TurnKey) (turnPhase turnStatus : Bytes)

/-- What a method does after its first section. -/
inductive Action
  /-- The recorder is called, outside of the lock. -/
  | record (event : Event)
  /-- `recordDelivery` calls `finish`. -/
  | finishDelivered (route : ℕ) (itemStatus : Bytes)
  | prune

/-- The router, what it recorded with the calls that did, and the handlers it started. -/
structure Shared where
  router : Router
  log : List (Call × Event)
  started : List ℕ

/-- The first section of a call. -/
def invoke (call : Call) (s : Shared) : Shared × List Action :=
  match call with
  | .ensure message threadID turnID turnPhase =>
    ({ s with router := (ensure s.router message threadID turnID turnPhase).1 }, [])
  | .markResultReady route =>
    ({ s with router := (markResultReady s.router route).1 },
      (markResultReady s.router route).2.map .record)
  | .markResponseWriteAttempted route =>
    ({ s with router := (markResponseWriteAttempted s.router route).1 },
      (markResponseWriteAttempted s.router route).2.map .record)
  | .finish route outcome itemStatus =>
    match TerminalOutcome.ofText outcome with
    | none => (s, [])
    | some outcome => ({ s with router := (finish s.router route outcome itemStatus).1 },
        (finish s.router route outcome itemStatus).2.map .record)
  | .reserveHandler route => ({ s with router := (reserveHandler s.router route).1 }, [])
  | .startHandler route =>
    ({ s with
      router := (startHandler s.router route).1
      started := if (startHandler s.router route).2 then s.started ++ [route] else s.started }, [])
  | .releaseUnstarted turn =>
    ({ s with router := (releaseUnstarted s.router turn).1 },
      (releaseUnstarted s.router turn).2.map .record ++ [.prune])
  | .recordDelivery params item turn =>
    match deliveredRoute s.router params item turn with
    | none => (s, [])
    | some route =>
      match s.router.routes[route]? with
      | none => (s, [])
      | some routing =>
        if deliveryFailures routing item = [] then
          (s, [.finishDelivered route (itemStatus item)])
        else (s, [.record (.deliveryRejected route routing.toIdentity
          (deliveryFailures routing item))])
  | .finishHandler route => ({ s with router := finishHandler s.router route }, [.prune])
  | .orphanUnresolved turn turnPhase turnStatus =>
    ({ s with router := (orphanUnresolved s.router turn turnPhase turnStatus).1 },
      (orphanUnresolved s.router turn turnPhase turnStatus).2.map .record ++ [.prune])

/-- One further action of a call. -/
def perform (call : Call) (action : Action) (s : Shared) : Shared × List Action :=
  match action with
  | .record event => ({ s with log := s.log ++ [(call, event)] }, [])
  | .finishDelivered route itemStatus =>
    ({ s with router := (finish s.router route .delivered itemStatus).1 },
      (finish s.router route .delivered itemStatus).2.map .record)
  | .prune => ({ s with router := prune s.router }, [])

def operations : Operations Shared Call Action := ⟨invoke, perform⟩

/-- A run of the router: any calls, with their sections and events in any order. -/
def routerRun (moves : List (Move Call)) : System Shared Call Action :=
  run operations ⟨Router.new, [], []⟩ moves

end Carcer.Agent
