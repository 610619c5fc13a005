import DexIndex.Event.Basic
import DexIndex.Json.Printer
import DexIndex.Json.Parser
import DexIndex.Json.Record

/-!
# Events as JSON

The JSON form of events and of their parts, written with the fields in a fixed order and read as
records.
-/

namespace DexIndex

open Json

def PublicKey.toJson (k : PublicKey) : Json := .ofText k.toText

def PublicKey.ofJson? (j : Json) : Option PublicKey := j.text?.bind PublicKey.ofText?

def Timestamp.toJson (t : Timestamp) : Json := .ofText t.toText

def Timestamp.ofJson? (j : Json) : Option Timestamp := j.text?.bind Timestamp.ofText?

def Side.toJson (s : Side) : Json := .ofText s.name

def Side.ofJson? : Json → Option Side := Json.choice? ([.bid, .ask].map fun s => (Side.name s, s))

def OrderType.toJson (t : OrderType) : Json := .ofText t.name

def OrderType.ofJson? : Json → Option OrderType :=
  Json.choice? ([.limit, .immediateOrCancel, .postOnly].map fun t => (OrderType.name t, t))

namespace Json

def ofWord (n : UInt64) : Json := .ofNat n.toNat

end Json

def Fill.toJson (f : Fill) : Json :=
  .ofFields [
    ("side", f.side.toJson),
    ("maker", .bool f.maker),
    ("price", .ofWord f.price),
    ("native_qty_released", .ofWord f.nativeQtyReleased),
    ("native_qty_paid", .ofWord f.nativeQtyPaid),
    ("native_fee_or_rebate", .ofWord f.nativeFeeOrRebate),
    ("fee_tier", .ofNat f.feeTier.toNat),
    ("client_order_id", .ofWord f.clientOrderId),
    ("trx_hash", .ofText f.trxHash)]

def Fill.ofJson? (j : Json) : Option Fill := do
  match ← j.record? ["side", "maker", "price", "native_qty_released", "native_qty_paid",
      "native_fee_or_rebate", "fee_tier", "client_order_id", "trx_hash"] with
  | [side, maker, price, released, paid, fee, tier, client, trx] =>
    return {
      side := ← required? Side.ofJson? side
      maker := ← required? bool? maker
      price := ← required? word64? price
      nativeQtyReleased := ← required? word64? released
      nativeQtyPaid := ← required? word64? paid
      nativeFeeOrRebate := ← required? word64? fee
      feeTier := ← required? byte? tier
      clientOrderId := ← required? word64? client
      trxHash := ← required? text? trx }
  | _ => none

def Order.toJson (o : Order) : Json :=
  .ofFields [
    ("side", o.side.toJson),
    ("price", .ofWord o.price),
    ("quantity", .ofWord o.quantity),
    ("order_type", o.orderType.toJson),
    ("client_order_id", .ofWord o.clientOrderId),
    ("trx_hash", .ofText o.trxHash),
    ("fills", .array (o.fills.map Fill.toJson))]

def Order.ofJson? (j : Json) : Option Order := do
  match ← j.record? ["side", "price", "quantity", "order_type", "client_order_id", "trx_hash",
      "fills"] with
  | [side, price, quantity, type, client, trx, fills] =>
    return {
      side := ← required? Side.ofJson? side
      price := ← required? word64? price
      quantity := ← required? word64? quantity
      orderType := ← required? OrderType.ofJson? type
      clientOrderId := ← required? word64? client
      trxHash := ← required? text? trx
      fills := ← optional? (listOf? Fill.ofJson?) [] fills }
  | _ => none

def InstructionRef.toJson (i : InstructionRef) : Json :=
  .ofFields [
    ("trx_hash", .ofText i.trxHash),
    ("slot_number", .ofWord i.place.slot),
    ("trx_idx", .ofWord i.place.trx),
    ("inst_idx", .ofWord i.place.inst)]

def InstructionRef.ofJson? (j : Json) : Option InstructionRef := do
  match ← j.record? ["trx_hash", "slot_number", "trx_idx", "inst_idx"] with
  | [hash, slot, trx, inst] =>
    return {
      trxHash := ← required? text? hash
      place := {
        slot := ← required? word64? slot
        trx := ← required? word64? trx
        inst := ← required? word64? inst } }
  | _ => none

namespace EventKind

def toJson (k : EventKind) : Json :=
  .ofFields (("type", .ofText k.type.name) :: match k with
    | newOrder order trader => [("order", order.toJson), ("trader", trader.toJson)]
    | fill account f => [("trading_account", account.toJson), ("fill", f.toJson)]
    | orderExecuted => []
    | orderCancelled i | orderClosed i => [("instruction", i.toJson)])

/-- The kind of event with the type `t` and the fields of the record `j`. -/
def ofRecord? (t : EventType) (j : Json) : Option EventKind :=
  match t with
  | .newOrder => do
    match ← j.record? ["order", "trader"] with
    | [order, trader] =>
      return newOrder (← required? Order.ofJson? order) (← required? PublicKey.ofJson? trader)
    | _ => none
  | .fill => do
    match ← j.record? ["trading_account", "fill"] with
    | [account, f] =>
      return fill (← required? PublicKey.ofJson? account) (← required? Fill.ofJson? f)
    | _ => none
  | .orderExecuted =>
    match j with
    | .object _ | .array [] => some orderExecuted
    | _ => none
  | .orderCancelled => do
    match ← j.record? ["instruction"] with
    | [i] => return orderCancelled (← required? InstructionRef.ofJson? i)
    | _ => none
  | .orderClosed => do
    match ← j.record? ["instruction"] with
    | [i] => return orderClosed (← required? InstructionRef.ofJson? i)
    | _ => none

/-- How deep a kind may be nested; it is held as a whole until its type is known. -/
def maxDepth : Nat := 126

/-- Unlike elsewhere, fields that are not known must be sound too. -/
def ofJson? (j : Json) : Option EventKind := do
  if ¬ j.sound ∨ maxDepth < j.depth then none
  let (name, record) ← j.tagged? "type"
  ofRecord? (← EventType.ofName? name) record

end EventKind

def EventRef.toJson (r : EventRef) : Json :=
  .ofFields [
    ("market", r.order.market.toJson),
    ("order_seq_num", .ofWord r.order.seq),
    ("slot_number", .ofWord r.place.slot),
    ("trx_idx", .ofWord r.place.trx),
    ("inst_idx", .ofWord r.place.inst),
    ("slot_hash", .ofText r.slotHash),
    ("timestamp", r.timestamp.toJson)]

def EventRef.ofJson? (j : Json) : Option EventRef := do
  match ← j.record? ["market", "order_seq_num", "slot_number", "trx_idx", "inst_idx", "slot_hash",
      "timestamp"] with
  | [market, seq, slot, trx, inst, hash, timestamp] =>
    return {
      order := {
        market := ← required? PublicKey.ofJson? market
        seq := ← required? word64? seq }
      place := {
        slot := ← required? word64? slot
        trx := ← required? word64? trx
        inst := ← required? word64? inst }
      slotHash := ← required? text? hash
      timestamp := ← required? Timestamp.ofJson? timestamp }
  | _ => none

def Event.toJson (e : Event) : Json :=
  .ofFields [("event_ref", e.ref.toJson), ("kind", e.kind.toJson)]

def Event.ofJson? (j : Json) : Option Event := do
  match ← j.record? ["event_ref", "kind"] with
  | [ref, kind] =>
    return {
      ref := ← required? EventRef.ofJson? ref
      kind := ← required? EventKind.ofJson? kind }
  | _ => none

/-! ### Stored events -/

/-- What the row of an event holds besides its key. The trader is kept with fills. -/
structure StoredEvent where
  slotHash : String
  timestamp : Timestamp
  trader : Option PublicKey
  kind : EventKind
deriving DecidableEq

namespace StoredEvent

def toJson (v : StoredEvent) : Json :=
  .ofFields ([("slot_hash", .ofText v.slotHash), ("timestamp", v.timestamp.toJson)] ++
    (match v.trader with
    | some trader => [("trader", trader.toJson)]
    | none => []) ++ [("kind", v.kind.toJson)])

def ofJson? (j : Json) : Option StoredEvent := do
  match ← j.record? ["slot_hash", "timestamp", "trader", "kind"] with
  | [hash, timestamp, trader, kind] =>
    return {
      slotHash := ← required? text? hash
      timestamp := ← required? Timestamp.ofJson? timestamp
      trader := ← optional? (nullable? PublicKey.ofJson?) none trader
      kind := ← required? EventKind.ofJson? kind }
  | _ => none

def encode (v : StoredEvent) : Bytes := v.toJson.print

def decode? (bs : Bytes) : Option StoredEvent := (Json.parse? bs).bind ofJson?

end StoredEvent

end DexIndex
