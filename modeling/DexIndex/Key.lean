import DexIndex.Event.Json
import DexIndex.Text.Number

/-!
# Row keys

The keys and values of the rows of the index. A key starts with the tag of its family; its fields
follow in big-endian bytes, so that the byte order of keys is the order of their fields, and a
field that is to sort downwards is complemented. A prefix of the leading fields then selects
exactly the keys with those fields.
-/

namespace DexIndex

/-- The families of rows. -/
inductive Family
  | checkpoint
  | fillByMarket
  | fillByTrader
  | fillByTraderMarket
  | orderEvent
  | tradingAccount
deriving DecidableEq

namespace Family

/-- The first byte of the keys. -/
def tag : Family → UInt8
  | checkpoint => 0
  | fillByMarket => 1
  | fillByTrader => 2
  | fillByTraderMarket => 3
  | orderEvent => 4
  | tradingAccount => 5

def name : Family → String
  | checkpoint => "checkpoint"
  | fillByMarket => "fill_by_market"
  | fillByTrader => "fill_by_trader"
  | fillByTraderMarket => "fill_by_trader_market"
  | orderEvent => "order_event"
  | tradingAccount => "trading_account"

/-- The length of the keys. -/
def keyLength : Family → Nat
  | checkpoint => 1
  | fillByMarket => 1 + 32 + 4 * 8
  | fillByTrader => 1 + 2 * 32 + 4 * 8
  | fillByTraderMarket => 1 + 2 * 32 + 4 * 8
  | orderEvent => 1 + 32 + 4 * 8 + 1
  | tradingAccount => 1 + 32

end Family

/-- Why a stored value cannot be read. -/
inductive ValueFault
  | traderLength (actual : Nat)
  | checkpointTruncated
  | slotId (fault : Utf8.Fault)
  | event
deriving DecidableEq

def ValueFault.message : ValueFault → String
  | traderLength n => s!"trader value must be 32 bytes, got {n}"
  | checkpointTruncated => "checkpoint value truncated"
  | slotId fault => s!"checkpoint slot id: {fault.message}"
  | event => "not an order event"

/-- Why a row cannot be read. -/
inductive CodecError
  | invalidLength (family : Family) (actual : Nat)
  | invalidPrefix (expected actual : UInt8)
  | unknownEventType (byte : UInt8)
  | invalidValue (fault : ValueFault)
deriving DecidableEq

def CodecError.message : CodecError → String
  | invalidLength family actual =>
    s!"invalid {family.name} key length: expected {family.keyLength}, got {actual}"
  | invalidPrefix expected actual =>
    s!"invalid key prefix: expected 0x{Text.hexByte expected}, got 0x{Text.hexByte actual}"
  | unknownEventType b => s!"unknown event type byte: {b.toNat}"
  | invalidValue fault => s!"invalid value: {fault.message}"

namespace Family

/-- The fields of a key of this family: its length is checked first, then its tag. -/
def decode {α : Type} (family : Family) (fields : Reader α) (key : Bytes) :
    Except CodecError α :=
  if key.length ≠ family.keyLength then .error (.invalidLength family key.length)
  else if key.headD 0 ≠ family.tag then .error (.invalidPrefix family.tag (key.headD 0))
  else
    match fields.eval key.tail with
    | some x => .ok x
    | none => .error (.invalidLength family key.length)

end Family

/-! ### Fill indexes -/

/-- The order and the place of a fill. -/
structure FillKey where
  order : OrderKey
  place : Place
deriving DecidableEq

/-- The key of an event's own row. -/
structure OrderEventKey where
  order : OrderKey
  place : Place
  type : EventType
deriving DecidableEq

namespace Place

/-- Newest slot first, and within a slot in chain order. -/
def encodeDescending (p : Place) : Bytes :=
  Bytes.ofWordBE (~~~p.slot) ++ Bytes.ofWordBE p.trx ++ Bytes.ofWordBE p.inst

def descendingReader : Reader Place := do
  let slot ← Reader.word64BE
  let trx ← Reader.word64BE
  let inst ← Reader.word64BE
  return ⟨~~~slot, trx, inst⟩

/-- In chain order. -/
def encodeAscending (p : Place) : Bytes :=
  Bytes.ofWordBE p.slot ++ Bytes.ofWordBE p.trx ++ Bytes.ofWordBE p.inst

def ascendingReader : Reader Place := do
  let slot ← Reader.word64BE
  let trx ← Reader.word64BE
  let inst ← Reader.word64BE
  return ⟨slot, trx, inst⟩

end Place

/-- A sequence number, newest first. -/
def encodeSeq (seq : UInt64) : Bytes := Bytes.ofWordBE (~~~seq)

def seqReader : Reader UInt64 := do return ~~~(← Reader.word64BE)

namespace OrderEventKey

def encode (k : OrderEventKey) : Bytes :=
  Family.orderEvent.tag :: (k.order.market.bytes ++ encodeSeq k.order.seq ++
    k.place.encodeAscending ++ [k.type.toByte])

def fields : Reader (OrderKey × Place × UInt8) := do
  let market ← PublicKey.reader
  let seq ← seqReader
  let place ← Place.ascendingReader
  let type ← Reader.byte
  return (⟨market, seq⟩, place, type)

def decode (key : Bytes) : Except CodecError OrderEventKey := do
  let (order, place, byte) ← Family.orderEvent.decode fields key
  match EventType.ofByte? byte with
  | some type => return ⟨order, place, type⟩
  | none => throw (.unknownEventType byte)

/-- The prefix of the keys of one order's events. -/
def orderPrefix (order : OrderKey) : Bytes :=
  Family.orderEvent.tag :: (order.market.bytes ++ encodeSeq order.seq)

def ofEvent (e : Event) : OrderEventKey := ⟨e.ref.order, e.ref.place, e.type⟩

end OrderEventKey

namespace FillKey

def ofEvent (e : Event) : FillKey := ⟨e.ref.order, e.ref.place⟩

/-- The key of the event row that an index row points to. -/
def orderEvent (k : FillKey) : OrderEventKey := ⟨k.order, k.place, .fill⟩

def encodeByMarket (k : FillKey) : Bytes :=
  Family.fillByMarket.tag :: (k.order.market.bytes ++ k.place.encodeDescending ++
    encodeSeq k.order.seq)

def byMarketFields : Reader FillKey := do
  let market ← PublicKey.reader
  let place ← Place.descendingReader
  let seq ← seqReader
  return ⟨⟨market, seq⟩, place⟩

def decodeByMarket (key : Bytes) : Except CodecError FillKey :=
  Family.fillByMarket.decode byMarketFields key

def marketPrefix (market : PublicKey) : Bytes := Family.fillByMarket.tag :: market.bytes

def encodeByTrader (trader : PublicKey) (k : FillKey) : Bytes :=
  Family.fillByTrader.tag :: (trader.bytes ++ k.place.encodeDescending ++ k.order.market.bytes ++
    encodeSeq k.order.seq)

def byTraderFields : Reader (PublicKey × FillKey) := do
  let trader ← PublicKey.reader
  let place ← Place.descendingReader
  let market ← PublicKey.reader
  let seq ← seqReader
  return (trader, ⟨⟨market, seq⟩, place⟩)

def decodeByTrader (key : Bytes) : Except CodecError (PublicKey × FillKey) :=
  Family.fillByTrader.decode byTraderFields key

def traderPrefix (trader : PublicKey) : Bytes := Family.fillByTrader.tag :: trader.bytes

def encodeByTraderMarket (trader : PublicKey) (k : FillKey) : Bytes :=
  Family.fillByTraderMarket.tag :: (trader.bytes ++ k.order.market.bytes ++
    k.place.encodeDescending ++ encodeSeq k.order.seq)

def byTraderMarketFields : Reader (PublicKey × FillKey) := do
  let trader ← PublicKey.reader
  let market ← PublicKey.reader
  let place ← Place.descendingReader
  let seq ← seqReader
  return (trader, ⟨⟨market, seq⟩, place⟩)

def decodeByTraderMarket (key : Bytes) : Except CodecError (PublicKey × FillKey) :=
  Family.fillByTraderMarket.decode byTraderMarketFields key

def traderMarketPrefix (trader market : PublicKey) : Bytes :=
  Family.fillByTraderMarket.tag :: (trader.bytes ++ market.bytes)

end FillKey

/-! ### Trading accounts -/

namespace Ownership

def encodeKey (account : PublicKey) : Bytes := Family.tradingAccount.tag :: account.bytes

def decodeKey (key : Bytes) : Except CodecError PublicKey :=
  Family.tradingAccount.decode PublicKey.reader key

/-- The prefix of the keys of all trading accounts. -/
def keyPrefix : Bytes := [Family.tradingAccount.tag]

def encodeTrader (trader : PublicKey) : Bytes := trader.bytes

def decodeTrader (value : Bytes) : Except CodecError PublicKey :=
  match PublicKey.ofBytes? value with
  | some k => .ok k
  | none => .error (.invalidValue (.traderLength value.length))

end Ownership

/-! ### The checkpoint -/

namespace Checkpoint

/-- The key of the one checkpoint row. -/
def key : Bytes := [Family.checkpoint.tag]

def encode (c : Checkpoint) : Bytes := Bytes.ofWordBE c.slot ++ Utf8.encode c.slotId

def decode (value : Bytes) : Except CodecError Checkpoint :=
  match Reader.word64BE value with
  | none => .error (.invalidValue .checkpointTruncated)
  | some (slot, id) =>
    match Utf8.decode? id with
    | some slotId => .ok ⟨slot, slotId⟩
    | none => .error (.invalidValue (.slotId ((Utf8.fault? id).getD (.incomplete 0))))

end Checkpoint

/-! ### Event rows -/

namespace StoredEvent

def decode (value : Bytes) : Except CodecError StoredEvent :=
  match decode? value with
  | some v => .ok v
  | none => .error (.invalidValue .event)

/-- The value kept for an event; `trader` is the owner of a fill's trading account. -/
def ofEvent (e : Event) (trader : Option PublicKey) : StoredEvent :=
  ⟨e.ref.slotHash, e.ref.timestamp, trader, e.kind⟩

/-- The event with the given key. -/
def toEvent (v : StoredEvent) (k : OrderEventKey) : Event :=
  ⟨⟨k.order, k.place, v.slotHash, v.timestamp⟩, v.kind⟩

end StoredEvent

/-- The event that a row holds; its key is read first. -/
def Event.ofRow (key value : Bytes) : Except CodecError Event := do
  let k ← OrderEventKey.decode key
  let v ← StoredEvent.decode value
  return v.toEvent k

end DexIndex
