import DexIndex.Order
import DexIndex.Time.Timestamp

/-!
# Order events

What happens to orders, and where on the chain it happens. Positions are ordered by place and then
by event type, in the order in which the types are declared.
-/

namespace DexIndex

structure Place where
  slot : UInt64
  trx : UInt64
  inst : UInt64
deriving DecidableEq

structure InstructionRef where
  trxHash : String
  place : Place
deriving DecidableEq

structure EventRef where
  order : OrderKey
  place : Place
  slotHash : String
  timestamp : Timestamp
deriving DecidableEq

inductive EventKind
  | newOrder (order : Order) (trader : PublicKey)
  | fill (account : PublicKey) (fill : Fill)
  | orderExecuted
  | orderCancelled (instruction : InstructionRef)
  | orderClosed (instruction : InstructionRef)
deriving DecidableEq

inductive EventType
  | newOrder
  | fill
  | orderExecuted
  | orderCancelled
  | orderClosed
deriving DecidableEq

namespace EventType

def toByte : EventType → UInt8
  | newOrder => 0
  | fill => 1
  | orderExecuted => 2
  | orderCancelled => 3
  | orderClosed => 4

def ofByte? : UInt8 → Option EventType
  | 0 => some newOrder
  | 1 => some fill
  | 2 => some orderExecuted
  | 3 => some orderCancelled
  | 4 => some orderClosed
  | _ => none

def name : EventType → String
  | newOrder => "new_order"
  | fill => "fill"
  | orderExecuted => "order_executed"
  | orderCancelled => "order_cancelled"
  | orderClosed => "order_closed"

def all : List EventType := [newOrder, fill, orderExecuted, orderCancelled, orderClosed]

def ofName? (s : String) : Option EventType := all.find? (·.name == s)

/-- Whether nothing more can happen to an order after this event. -/
def isTerminal : EventType → Bool
  | newOrder | fill => false
  | orderExecuted | orderCancelled | orderClosed => true

@[simp] theorem ofByte?_toByte (t : EventType) : ofByte? t.toByte = some t := by cases t <;> rfl

end EventType

/-- Where an event stands in the history of its order. -/
structure EventPosition where
  place : Place
  type : EventType
deriving DecidableEq

namespace EventPosition

def before (a b : EventPosition) : Bool :=
  if a.place.slot ≠ b.place.slot then a.place.slot < b.place.slot
  else if a.place.trx ≠ b.place.trx then a.place.trx < b.place.trx
  else if a.place.inst ≠ b.place.inst then a.place.inst < b.place.inst
  else a.type.toByte < b.type.toByte

end EventPosition

structure Event where
  ref : EventRef
  kind : EventKind
deriving DecidableEq

def EventKind.type : EventKind → EventType
  | newOrder .. => .newOrder
  | fill .. => .fill
  | orderExecuted => .orderExecuted
  | orderCancelled .. => .orderCancelled
  | orderClosed .. => .orderClosed

namespace Event

def type (e : Event) : EventType := e.kind.type

def order (e : Event) : OrderKey := e.ref.order

def position (e : Event) : EventPosition := ⟨e.ref.place, e.type⟩

end Event

end DexIndex
