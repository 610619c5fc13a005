import DexIndex.PublicKey

/-!
# Orders

Sides, order types, the identifiers that the exchange gives to orders, and the orders and fills
that the index keeps.
-/

namespace DexIndex

inductive Side
  | bid
  | ask
deriving DecidableEq

namespace Side

def ofNat? : Nat → Option Side
  | 0 => some bid
  | 1 => some ask
  | _ => none

def toNat : Side → Nat
  | bid => 0
  | ask => 1

def name : Side → String
  | bid => "bid"
  | ask => "ask"

@[simp] theorem ofNat?_toNat (s : Side) : ofNat? s.toNat = some s := by cases s <;> rfl

end Side

inductive OrderType
  | limit
  | immediateOrCancel
  | postOnly
deriving DecidableEq

namespace OrderType

def ofNat? : Nat → Option OrderType
  | 0 => some limit
  | 1 => some immediateOrCancel
  | 2 => some postOnly
  | _ => none

def toNat : OrderType → Nat
  | limit => 0
  | immediateOrCancel => 1
  | postOnly => 2

/-- The name under which an order type is stored. -/
def name : OrderType → String
  | limit => "limit"
  | immediateOrCancel => "immediate_or_cancel"
  | postOnly => "post_only"

/-- The name under which an order type is shown. -/
def shortName : OrderType → String
  | limit => "limit"
  | immediateOrCancel => "ioc"
  | postOnly => "post_only"

@[simp] theorem ofNat?_toNat (t : OrderType) : ofNat? t.toNat = some t := by cases t <;> rfl

end OrderType

/-- The 128-bit identifier of an order: the price in the high word, the sequence number of the
order in the low one, complemented for bids so that ids sort by priority on both sides. -/
structure OrderId where
  price : UInt64
  low : UInt64
deriving DecidableEq

namespace OrderId

def make (price : UInt64) (side : Side) (seq : UInt64) : OrderId :=
  match side with
  | .bid => ⟨price, ~~~seq⟩
  | .ask => ⟨price, seq⟩

def seq (id : OrderId) (side : Side) : UInt64 :=
  match side with
  | .bid => ~~~id.low
  | .ask => id.low

def toNat (id : OrderId) : Nat := id.price.toNat * UInt64.size + id.low.toNat

def ofNat (n : Nat) : OrderId := ⟨UInt64.ofNat (n / UInt64.size), UInt64.ofNat n⟩

/-- Sixteen bytes, least significant first. -/
def toBytes (id : OrderId) : Bytes := Bytes.ofWord id.low ++ Bytes.ofWord id.price

def reader : Reader OrderId := do
  let low ← Reader.word64
  let price ← Reader.word64
  return ⟨price, low⟩

@[simp] theorem price_make (price : UInt64) (side : Side) (seq : UInt64) :
    (make price side seq).price = price := by
  cases side <;> rfl

@[simp] theorem seq_make (price : UInt64) (side : Side) (n : UInt64) :
    (make price side n).seq side = n := by
  cases side <;> simp [make, seq]

@[simp] theorem make_price_seq (id : OrderId) (side : Side) :
    make id.price side (id.seq side) = id := by
  cases side <;> simp [make, seq]

end OrderId

/-- One execution against an order. -/
structure Fill where
  side : Side
  maker : Bool
  price : UInt64
  nativeQtyReleased : UInt64
  nativeQtyPaid : UInt64
  nativeFeeOrRebate : UInt64
  feeTier : UInt8
  clientOrderId : UInt64
  trxHash : String
deriving DecidableEq

structure Order where
  side : Side
  price : UInt64
  quantity : UInt64
  orderType : OrderType
  clientOrderId : UInt64
  trxHash : String
  /-- The fills so far, oldest first. -/
  fills : List Fill
deriving DecidableEq

/-- An order within the whole exchange: its market and its sequence number there. -/
structure OrderKey where
  market : PublicKey
  seq : UInt64
deriving DecidableEq

def OrderKey.toText (k : OrderKey) : String := s!"{k.market}:{k.seq}"

/-- A trading account and the trader who owns it. -/
structure Ownership where
  account : PublicKey
  trader : PublicKey
deriving DecidableEq

/-- How far the index has been written: the last slot and its identifier. -/
structure Checkpoint where
  slot : UInt64
  slotId : String
deriving DecidableEq

end DexIndex
