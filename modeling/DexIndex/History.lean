import DexIndex.Event.Description
import DexIndex.Lifecycle
import DexIndex.Ownership

/-!
# Queries

The history of an order, read from its event rows, and pages of fills, newest slot first, found
through an index: the index gives the keys of fills, and each fill is then read from its event row.
-/

namespace DexIndex

/-- Index and event rows that do not fit together. -/
inductive Inconsistency
  | missingEvent (key : FillKey)
  | fillWithoutTrader (order : OrderKey)
  | notAFill (kind : EventKind)
deriving DecidableEq

def Inconsistency.message : Inconsistency → String
  | missingEvent k =>
    s!"fill index for {k.order.toText} at slot {k.place.slot} has no order event"
  | fillWithoutTrader order => s!"fill {order.toText} stored without trader"
  | notAFill kind => s!"fill index points at {kind.describe}"

inductive ReaderError
  | store (error : StoreError)
  | codec (error : CodecError)
  | inconsistent (what : Inconsistency)
deriving DecidableEq

def ReaderError.message : ReaderError → String
  | store e => s!"store error: {e.message}"
  | codec e => s!"codec error: {e.message}"
  | inconsistent what => s!"inconsistent store: {what.message}"

/-- A fill with the trader and the trading account that it belongs to. -/
structure FillRecord where
  trader : PublicKey
  account : PublicKey
  ref : EventRef
  fill : Fill
deriving DecidableEq

structure FillPage where
  fills : List FillRecord
  /-- Whether there are more fills than the page may hold. -/
  hasMore : Bool
deriving DecidableEq

def FillRecord.toJson (r : FillRecord) : Json :=
  .ofFields [("trader", r.trader.toJson), ("trading_account", r.account.toJson),
    ("event_ref", r.ref.toJson), ("fill", r.fill.toJson)]

def FillPage.toJson (p : FillPage) : Json :=
  .ofFields [("fills", .array (p.fills.map FillRecord.toJson)), ("has_more", .bool p.hasMore)]

inductive FillQuery
  | byMarket (market : PublicKey)
  | byTrader (trader : PublicKey)
  | byTraderMarket (trader market : PublicKey)
deriving DecidableEq

namespace FillQuery

/-- The query for the fills of a market, narrowed to a trader if there is one. -/
def ofMarket (market : PublicKey) : Option PublicKey → FillQuery
  | none => byMarket market
  | some trader => byTraderMarket trader market

def indexPrefix : FillQuery → Bytes
  | byMarket market => FillKey.marketPrefix market
  | byTrader trader => FillKey.traderPrefix trader
  | byTraderMarket trader market => FillKey.traderMarketPrefix trader market

/-- The fill that a key of the index names. -/
def decodeKey (q : FillQuery) (key : Bytes) : Except CodecError FillKey :=
  match q with
  | byMarket _ => FillKey.decodeByMarket key
  | byTrader _ => (FillKey.decodeByTrader key).map (·.2)
  | byTraderMarket .. => (FillKey.decodeByTraderMarket key).map (·.2)

end FillQuery

/-- The fill that an index key names, read from the value of its event row. -/
def FillKey.resolve (k : FillKey) (value : Option Bytes) : Except ReaderError FillRecord :=
  match value with
  | none => .error (.inconsistent (.missingEvent k))
  | some value =>
    match StoredEvent.decode value with
    | .error e => .error (.codec e)
    | .ok v =>
      match v.kind, v.trader with
      | .fill account fill, some trader =>
        .ok ⟨trader, account, (v.toEvent k.orderEvent).ref, fill⟩
      | .fill .., none => .error (.inconsistent (.fillWithoutTrader k.order))
      | kind, _ => .error (.inconsistent (.notAFill kind))

def eventsOfRows (rows : List Row) : Except CodecError (List Event) :=
  rows.mapM fun (key, value) => Event.ofRow key value

namespace Ledger

/-- The stored events of an order, in the order of their positions. -/
def orderEvents (l : Ledger) (order : OrderKey) : Except ReaderError (List Event) × Ledger :=
  match l.scan (OrderEventKey.orderPrefix order) none with
  | (.error e, l) => (.error (.store e), l)
  | (.ok rows, l) => ((eventsOfRows rows).mapError .codec, l)

/-- The fold of the stored events of an order. -/
def orderMachine (l : Ledger) (order : OrderKey) : Except ReaderError OrderMachine × Ledger :=
  let (events, l) := l.orderEvents order
  (events.map (OrderMachine.replay order), l)

/-- What is known of an order, if it has stored events. -/
def order? (l : Ledger) (order : OrderKey) :
    Except ReaderError (Option OrderTransition) × Ledger :=
  let (machine, l) := l.orderMachine order
  (machine.map fun m => if m.hasEvents then m.transition? else none, l)

/-- Reads the fills that index keys name, up to the first error. -/
def resolveFills (q : FillQuery) (l : Ledger) :
    List Bytes → Except ReaderError (List FillRecord) × Ledger
  | [] => (.ok [], l)
  | key :: rest =>
    match q.decodeKey key with
    | .error e => (.error (.codec e), l)
    | .ok k =>
      match l.get k.orderEvent.encode with
      | (.error e, l) => (.error (.store e), l)
      | (.ok value, l) =>
        match k.resolve value with
        | .error e => (.error e, l)
        | .ok fill =>
          let (fills, l) := resolveFills q l rest
          (fills.map (fill :: ·), l)

/-- The first `limit` fills of a query. One index row more than that is asked for, which tells
whether there are more. -/
def fills (l : Ledger) (q : FillQuery) (limit : Nat) : Except ReaderError FillPage × Ledger :=
  match l.scan q.indexPrefix (some (limit + 1)) with
  | (.error e, l) => (.error (.store e), l)
  | (.ok rows, l) =>
    let (fills, l) := resolveFills q l ((rows.take limit).map (·.1))
    (fills.map fun fills => { fills, hasMore := limit < rows.length }, l)

def checkpoint? (l : Ledger) : Except ReaderError (Option Checkpoint) × Ledger :=
  match l.get Checkpoint.key with
  | (.error e, l) => (.error (.store e), l)
  | (.ok none, l) => (.ok none, l)
  | (.ok (some value), l) => (((Checkpoint.decode value).map some).mapError .codec, l)

end Ledger

end DexIndex
