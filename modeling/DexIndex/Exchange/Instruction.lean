import DexIndex.Order

/-!
# Exchange instructions

The instructions of the exchange program that the index follows, their binary form and the
positions of the accounts they use. The binary form is a version byte, a tag and a payload; fields
that the index has no use for are read over, and so is what follows the payload.
-/

namespace DexIndex

structure NewOrderParams where
  side : Side
  limitPrice : UInt64
  maxCoinQty : UInt64
  orderType : OrderType
  clientOrderId : UInt64
deriving DecidableEq

inductive Instruction
  | newOrder (params : NewOrderParams)
  | matchOrders (limit : UInt16)
  | cancelOrder (side : Side) (id : OrderId)
  | cancelOrderByClientId (clientOrderId : UInt64)
  | newOrderV2 (params : NewOrderParams)
  | newOrderV3 (params : NewOrderParams)
  | cancelOrderV2 (side : Side) (id : OrderId)
  | cancelOrderByClientIdV2 (clientOrderId : UInt64)
deriving DecidableEq

inductive Purpose
  | newOrder
  | matchOrders
  | cancelOrder
deriving DecidableEq

inductive InstructionError
  | tooShort
  | unsupportedVersion (version : UInt8)
  | unsupportedTag (tag : UInt32)
  | invalidPayload (tag : UInt32)
deriving DecidableEq

def InstructionError.message : InstructionError → String
  | tooShort => "instruction data too short"
  | unsupportedVersion v => s!"unsupported instruction version {v}"
  | unsupportedTag t => s!"unsupported instruction tag {t}"
  | invalidPayload t => s!"invalid payload for instruction tag {t}"

/-- Which accounts of an instruction play a part, by their positions. -/
structure AccountLayout where
  market : Nat
  openOrders : Option Nat
  requestQueue : Option Nat
  eventQueue : Option Nat
  owner : Option Nat
deriving DecidableEq

namespace Instruction

def purpose : Instruction → Purpose
  | newOrder _ | newOrderV2 _ | newOrderV3 _ => .newOrder
  | matchOrders _ => .matchOrders
  | cancelOrder .. | cancelOrderByClientId _ | cancelOrderV2 .. | cancelOrderByClientIdV2 _ =>
    .cancelOrder

def name : Instruction → String
  | newOrder _ => "new_order"
  | matchOrders _ => "match_orders"
  | cancelOrder .. => "cancel_order"
  | cancelOrderByClientId _ => "cancel_order_by_client_id"
  | newOrderV2 _ => "new_order_v2"
  | newOrderV3 _ => "new_order_v3"
  | cancelOrderV2 .. => "cancel_order_v2"
  | cancelOrderByClientIdV2 _ => "cancel_order_by_client_id_v2"

def newOrderParams? : Instruction → Option NewOrderParams
  | newOrder p | newOrderV2 p | newOrderV3 p => some p
  | _ => none

def accounts : Instruction → AccountLayout
  | newOrder _ | newOrderV2 _ => ⟨0, some 1, some 2, none, some 4⟩
  | newOrderV3 _ => ⟨0, some 1, some 2, some 3, some 7⟩
  | matchOrders _ => ⟨0, none, some 1, some 2, none⟩
  | cancelOrder .. | cancelOrderByClientId _ => ⟨0, some 1, some 2, none, some 3⟩
  | cancelOrderV2 .. | cancelOrderByClientIdV2 _ => ⟨0, some 3, none, some 5, some 4⟩

/-! ### Binary form -/

def tag : Instruction → UInt32
  | newOrder _ => 1
  | matchOrders _ => 2
  | cancelOrder .. => 4
  | cancelOrderByClientId _ => 6
  | newOrderV2 _ => 9
  | newOrderV3 _ => 10
  | cancelOrderV2 .. => 11
  | cancelOrderByClientIdV2 _ => 12

def side : Reader Side := do
  match Side.ofNat? (← Reader.word32).toNat with
  | some s => return s
  | none => failure

def orderType : Reader OrderType := do
  match OrderType.ofNat? (← Reader.word32).toNat with
  | some t => return t
  | none => failure

def params : Reader NewOrderParams := do
  let side ← side
  let limitPrice ← Reader.word64
  let maxCoinQty ← Reader.word64
  let orderType ← orderType
  let clientOrderId ← Reader.word64
  return { side, limitPrice, maxCoinQty, orderType, clientOrderId }

/-- In the third version, the largest quote quantity and the handling of self trades stand before
the order type, and a limit of matches after the client's identifier. -/
def paramsV3 : Reader NewOrderParams := do
  let side ← side
  let limitPrice ← Reader.word64
  let maxCoinQty ← Reader.word64
  Reader.skip 12
  let orderType ← orderType
  let clientOrderId ← Reader.word64
  Reader.skip 2
  return { side, limitPrice, maxCoinQty, orderType, clientOrderId }

def payload? (tag : Nat) : Option (Reader Instruction) :=
  match tag with
  | 1 => some do return newOrder (← params)
  | 2 => some do return matchOrders (← Reader.word16)
  | 4 => some do
    let side ← side
    let id ← OrderId.reader
    Reader.skip 33
    return cancelOrder side id
  | 6 => some do return cancelOrderByClientId (← Reader.word64)
  | 9 => some do
    let p ← params
    Reader.skip 4
    return newOrderV2 p
  | 10 => some do return newOrderV3 (← paramsV3)
  | 11 => some do
    let side ← side
    let id ← OrderId.reader
    return cancelOrderV2 side id
  | 12 => some do return cancelOrderByClientIdV2 (← Reader.word64)
  | _ => none

def decode (data : Bytes) : Except InstructionError Instruction :=
  match data with
  | [] => .error .tooShort
  | version :: rest =>
    if version ≠ 0 then .error (.unsupportedVersion version)
    else
      match Reader.word32 rest with
      | none => .error .tooShort
      | some (tag, rest) =>
        match payload? tag.toNat with
        | none => .error (.unsupportedTag tag)
        | some payload =>
          match payload.eval rest with
          | none => .error (.invalidPayload tag)
          | some i => .ok i

def encodeSide (s : Side) : Bytes := Bytes.littleEndian 4 s.toNat

def encodeOrderType (t : OrderType) : Bytes := Bytes.littleEndian 4 t.toNat

def encodeParams (p : NewOrderParams) : Bytes :=
  encodeSide p.side ++ Bytes.ofWord p.limitPrice ++ Bytes.ofWord p.maxCoinQty ++
    encodeOrderType p.orderType ++ Bytes.ofWord p.clientOrderId

/-- The quote quantity and the number of matches are written without a limit. -/
def encodeParamsV3 (p : NewOrderParams) : Bytes :=
  encodeSide p.side ++ Bytes.ofWord p.limitPrice ++ Bytes.ofWord p.maxCoinQty ++
    List.replicate 8 0xff ++ List.replicate 4 0 ++
    encodeOrderType p.orderType ++ Bytes.ofWord p.clientOrderId ++ List.replicate 2 0xff

def encodePayload : Instruction → Bytes
  | newOrder p => encodeParams p
  | matchOrders limit => Bytes.littleEndian 2 limit.toNat
  | cancelOrder side id => encodeSide side ++ id.toBytes ++ List.replicate 33 0
  | cancelOrderByClientId id => Bytes.ofWord id
  | newOrderV2 p => encodeParams p ++ List.replicate 4 0
  | newOrderV3 p => encodeParamsV3 p
  | cancelOrderV2 side id => encodeSide side ++ id.toBytes
  | cancelOrderByClientIdV2 id => Bytes.ofWord id

def encode (i : Instruction) : Bytes :=
  0 :: (Bytes.littleEndian 4 i.tag.toNat ++ i.encodePayload)

end Instruction

end DexIndex
