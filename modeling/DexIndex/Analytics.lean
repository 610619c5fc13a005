import DexIndex.Event.Basic

/-!
# Analytics rows

Events as rows of one wide table, and the buffer that hands them to a database in batches. A column
that says nothing about an event is left empty.
-/

namespace DexIndex

structure AnalyticsRow where
  kind : EventType
  market : PublicKey
  orderSeq : UInt64
  place : Place
  slotHash : String
  blockTime : Timestamp
  trader : Option PublicKey
  account : Option PublicKey
  side : Option Side
  price : Option UInt64
  quantity : Option UInt64
  nativeQtyReleased : Option UInt64
  nativeQtyPaid : Option UInt64
  nativeFeeOrRebate : Option UInt64
  maker : Option Bool
  trxHash : Option String
deriving DecidableEq

namespace AnalyticsRow

def ofEvent (e : Event) : AnalyticsRow :=
  let row : AnalyticsRow :=
    { kind := e.type, market := e.ref.order.market, orderSeq := e.ref.order.seq
      place := e.ref.place, slotHash := e.ref.slotHash, blockTime := e.ref.timestamp
      trader := none, account := none, side := none, price := none, quantity := none
      nativeQtyReleased := none, nativeQtyPaid := none, nativeFeeOrRebate := none
      maker := none, trxHash := none }
  match e.kind with
  | .newOrder order trader =>
    { row with
      trader := some trader, side := some order.side, price := some order.price
      quantity := some order.quantity, trxHash := some order.trxHash }
  | .fill account fill =>
    { row with
      account := some account, side := some fill.side, price := some fill.price
      nativeQtyReleased := some fill.nativeQtyReleased, nativeQtyPaid := some fill.nativeQtyPaid
      nativeFeeOrRebate := some fill.nativeFeeOrRebate, maker := some fill.maker
      trxHash := some fill.trxHash }
  | .orderCancelled i | .orderClosed i => { row with trxHash := some i.trxHash }
  | .orderExecuted => row

end AnalyticsRow

inductive DatabaseError
  | poolClosed
deriving DecidableEq

def DatabaseError.message : DatabaseError → String
  | poolClosed => "database error: attempted to acquire a connection on a closed pool"

structure AnalyticsBuffer where
  batchSize : Nat
  rows : List AnalyticsRow
deriving DecidableEq

namespace AnalyticsBuffer

/-- A batch has at least one row. -/
def start (batchSize : Nat) : AnalyticsBuffer := ⟨max batchSize 1, []⟩

/-- Hands all rows over; `attempt` is what that runs into. Without rows it is not tried; if it
fails, the rows are kept. -/
def flush (b : AnalyticsBuffer) (attempt : Except DatabaseError Unit) :
    Except DatabaseError Unit × AnalyticsBuffer :=
  if b.rows.isEmpty then (.ok (), b)
  else
    match attempt with
    | .ok () => (.ok (), { b with rows := [] })
    | .error e => (.error e, b)

/-- Adds the rows of events, and hands all rows over once a batch is full. -/
def write (b : AnalyticsBuffer) (attempt : Except DatabaseError Unit) (events : List Event) :
    Except DatabaseError Unit × AnalyticsBuffer :=
  let b := { b with rows := b.rows ++ events.map .ofEvent }
  if b.batchSize ≤ b.rows.length then b.flush attempt else (.ok (), b)

end AnalyticsBuffer

end DexIndex
