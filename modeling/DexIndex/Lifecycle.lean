import DexIndex.Event.Json

/-!
# The life of an order

The events of an order, folded in the order of their positions, give its state. An event that does
not stand after all events folded before is ignored, and so is one of another order; after a
terminal state only the count of fills and the last position go on.
-/

namespace DexIndex

inductive OrderState
  | unknown
  | approved
  | partiallyFilled
  | executed
  | cancelled
deriving DecidableEq

namespace OrderState

def isTerminal : OrderState → Bool
  | executed | cancelled => true
  | _ => false

def name : OrderState → String
  | unknown => "UNKNOWN"
  | approved => "APPROVED"
  | partiallyFilled => "PARTIAL"
  | executed => "EXECUTED"
  | cancelled => "CANCELLED"

end OrderState

/-- What is known of an order after its last change of state. -/
structure OrderTransition where
  key : OrderKey
  previous : OrderState
  current : OrderState
  /-- The type of the event that made the change. -/
  cause : EventType
  trader : Option PublicKey
  order : Option Order
  cancellation : Option InstructionRef
deriving DecidableEq

def OrderTransition.toJson (t : OrderTransition) : Json :=
  .ofFields [
    ("market", t.key.market.toJson),
    ("order_seq_num", .ofWord t.key.seq),
    ("previous_state", .ofText t.previous.name),
    ("current_state", .ofText t.current.name),
    ("transition", .ofText t.cause.name),
    ("trader", (t.trader.map PublicKey.toJson).getD .null),
    ("order", (t.order.map Order.toJson).getD .null),
    ("cancellation", (t.cancellation.map InstructionRef.toJson).getD .null)]

/-- The fold of an order's events. -/
structure OrderMachine where
  key : OrderKey
  state : OrderState
  previous : OrderState
  cause : Option EventType
  trader : Option PublicKey
  order : Option Order
  cancellation : Option InstructionRef
  /-- Unbounded, as no run gives an order `2 ^ 64` fills. -/
  fillCount : Nat
  lastPosition : Option EventPosition
deriving DecidableEq

namespace OrderMachine

/-- No events yet. -/
def start (key : OrderKey) : OrderMachine :=
  ⟨key, .unknown, .unknown, none, none, none, none, 0, none⟩

def hasEvents (m : OrderMachine) : Bool := m.lastPosition.isSome

/-- Whether an event is of this order and stands after the last one. -/
def isNext (m : OrderMachine) (e : Event) : Bool :=
  e.order == m.key && m.lastPosition.all (·.before e.position)

/-- Takes note of the position of an event and counts it if it is a fill. -/
def observe (m : OrderMachine) (e : Event) : OrderMachine :=
  { m with
    lastPosition := some e.position
    fillCount := if e.type = .fill then m.fillCount + 1 else m.fillCount }

/-- Goes over to a state. -/
def enter (m : OrderMachine) (state : OrderState) (cause : EventType) : OrderMachine :=
  { m with previous := m.state, state, cause := some cause }

/-- The machine after the change that an event makes, if it makes one. An order is placed only
once. An order that is closed was executed if it had fills, otherwise it was cancelled. -/
def change? (m : OrderMachine) (kind : EventKind) : Option OrderMachine :=
  match kind with
  | .newOrder order trader =>
    if m.state = .unknown then
      some { m.enter .approved .newOrder with
        order := some { order with fills := [] }
        trader := some trader }
    else none
  | .fill _ fill =>
    some { m.enter .partiallyFilled .fill with
      order := m.order.map fun o => { o with fills := o.fills ++ [fill] } }
  | .orderExecuted => some (m.enter .executed .orderExecuted)
  | .orderCancelled i =>
    some { m.enter .cancelled .orderCancelled with cancellation := some i }
  | .orderClosed i =>
    if m.fillCount = 0 then
      some { m.enter .cancelled .orderClosed with cancellation := some i }
    else some (m.enter .executed .orderClosed)

/-- Folds one event; tells whether it changed the state. -/
def apply (m : OrderMachine) (e : Event) : OrderMachine × Bool :=
  if m.isNext e then
    let m := m.observe e
    if m.state.isTerminal then (m, false)
    else
      match m.change? e.kind with
      | some m => (m, true)
      | none => (m, false)
  else (m, false)

def applyAll (m : OrderMachine) (events : List Event) : OrderMachine :=
  events.foldl (fun m e => (m.apply e).1) m

/-- The fold of a list of events. -/
def replay (key : OrderKey) (events : List Event) : OrderMachine := (start key).applyAll events

/-- What is known of the order, once its state has changed. -/
def transition? (m : OrderMachine) : Option OrderTransition :=
  m.cause.map fun cause =>
    { key := m.key, previous := m.previous, current := m.state, cause, trader := m.trader
      order := m.order, cancellation := m.cancellation }

end OrderMachine

end DexIndex
