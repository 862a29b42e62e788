import Runbook.Table
import Runbook.Value.Basic

/-!
# Event buses in memory

A bus keeps, for each event name, the handlers subscribed to it, in order of subscription.
Publishing calls them one after the other, those included that are subscribed meanwhile. A handler
does a list of actions, and subscribes and publishes only during the first call it ever gets;
therefore publishing ends: after a first call fewer handlers are left that never were called, and
between first calls no list grows.
-/

namespace Runbook
namespace Bus

/-- What a handler can do. -/
inductive Action
  /-- End with an ordinary exception, which is swallowed. -/
  | fail
  /-- End with a cancellation, which ends the publishing too. -/
  | cancel
  /-- Write into the payload that all handlers of the event share. -/
  | set (key : String) (v : Value)
  | subscribe (event handler : String)
  | publish (event : String)

/-- The actions of handlers; a handler without entry does nothing. -/
abbrev Handlers := Table String (List Action)

/-- The subscriptions, and the handlers that were called so far. -/
structure State where
  subscriptions : Table String (List String)
  called : List String

namespace State

/-- A bus without subscriptions. -/
def empty : State := ⟨[], []⟩

/-- The handlers of an event, in order of subscription. -/
def handlersOf (s : State) (event : String) : List String :=
  (s.subscriptions.get? event).getD []

/-- Subscribe a handler to an event. -/
def subscribe (s : State) (event handler : String) : State :=
  { s with subscriptions := s.subscriptions.set event (s.handlersOf event ++ [handler]) }

/-- The handlers that do anything and were never called. -/
def fresh (handlers : Handlers) (s : State) : Nat :=
  (handlers.filter fun e => !s.called.contains e.1).length

end State

/-- A call of a handler, with the payload at that moment. -/
structure Call where
  handler : String
  event : String
  payload : Table String Value

/-- What publishing has come to: the state of the bus, the calls, and whether it was cancelled. -/
structure Progress where
  state : State
  calls : List Call
  cancelled : Bool

/-- The payload after the actions of a handler that was called before, and whether one of them is a
cancellation. -/
def repeatActions (payload : Table String Value) : List Action → Table String Value × Bool
  | [] => (payload, false)
  | .fail :: _ => (payload, false)
  | .cancel :: _ => (payload, true)
  | .set key v :: r => repeatActions (payload.set key v) r
  | _ :: r => repeatActions payload r

mutual

/-- Call the handlers of an event from a position on. The level bounds the number of handlers that
were never called. -/
def deliver (handlers : Handlers) (level : Nat) (event : String) (payload : Table String Value)
    (position : Nat) (p : Progress) : Progress :=
  if h : position < (p.state.handlersOf event).length then
    let handler := (p.state.handlersOf event)[position]
    let actions := (handlers.get? handler).getD []
    let calls := p.calls ++ [⟨handler, event, payload⟩]
    match level with
    | level + 1 =>
      if handlers.has handler && !p.state.called.contains handler then
        let (payload, p) := perform handlers level handler payload actions
          ⟨{ p.state with called := handler :: p.state.called }, calls, false⟩
        if p.cancelled then p
        else deliver handlers level event payload (position + 1) p
      else
        let (payload, cancelled) := repeatActions payload actions
        if cancelled then ⟨p.state, calls, true⟩
        else deliver handlers (level + 1) event payload (position + 1) ⟨p.state, calls, false⟩
    | 0 =>
      let (payload, cancelled) := repeatActions payload actions
      if cancelled then ⟨p.state, calls, true⟩
      else deliver handlers 0 event payload (position + 1) ⟨p.state, calls, false⟩
  else p
termination_by (level, 0, (p.state.handlersOf event).length - position)

/-- Do the actions of a handler that is called for the first time. -/
def perform (handlers : Handlers) (level : Nat) (handler : String)
    (payload : Table String Value) (actions : List Action) (p : Progress) :
    Table String Value × Progress :=
  match actions with
  | [] => (payload, p)
  | .fail :: _ => (payload, p)
  | .cancel :: _ => (payload, { p with cancelled := true })
  | .set key v :: r => perform handlers level handler (payload.set key v) r p
  | .subscribe event other :: r =>
    perform handlers level handler payload r { p with state := p.state.subscribe event other }
  | .publish event :: r =>
    let p := deliver handlers level event [("from", .str handler)] 0 p
    if p.cancelled then (payload, p) else perform handlers level handler payload r p
termination_by (level, 1, actions.length)

end

/-- Publish an event. -/
def publish (handlers : Handlers) (event : String) (payload : Table String Value) (s : State) :
    Progress :=
  deliver handlers (s.fresh handlers) event payload 0 ⟨s, [], false⟩

end Bus
end Runbook
