import DexIndex.Order
import DexIndex.Text.Number

/-!
# Queue accounts

The request queue and the event queue of a market. A queue account holds a header and a ring of
slots of one size between two marks; `count` entries are live, from the slot `head` on, wrapping
round at the capacity.
-/

namespace DexIndex

/-- Why the data of a queue account cannot be read, or why two readings do not fit together. -/
inductive LayoutError
  | tooShort (needed actual : Nat)
  | missingPadding
  | unexpectedAccountFlags (flags expected : UInt64)
  | headerOutOfRange (head count : UInt64) (capacity : Nat)
  | seqNumRegressed (prev new : UInt64)
  | overrun (appended : UInt64) (available : Nat)
deriving DecidableEq

def LayoutError.message : LayoutError → String
  | tooShort needed actual => s!"account data too short: need {needed} bytes, got {actual}"
  | missingPadding => "missing account padding"
  | unexpectedAccountFlags flags expected =>
    s!"unexpected account flags 0x{Text.hex flags.toNat}, expected 0x{Text.hex expected.toNat}"
  | headerOutOfRange head count capacity =>
    s!"ring buffer header out of range: head={head} count={count} capacity={capacity}"
  | seqNumRegressed prev new => s!"event queue seq_num regressed from {prev} to {new}"
  | overrun appended available =>
    s!"{appended} events appended but only {available} visible"

structure EventEntry where
  flags : UInt8
  ownerSlot : UInt8
  feeTier : UInt8
  nativeQtyReleased : UInt64
  nativeQtyPaid : UInt64
  nativeFeeOrRebate : UInt64
  orderId : OrderId
  owner : PublicKey
  clientOrderId : UInt64
deriving DecidableEq

structure RequestEntry where
  flags : UInt8
  ownerSlot : UInt8
  feeTier : UInt8
  selfTradeBehavior : UInt8
  maxCoinQtyOrCancelId : UInt64
  nativePcQtyLocked : UInt64
  orderId : OrderId
  owner : PublicKey
  clientOrderId : UInt64
deriving DecidableEq

/-- How entries of a queue are kept: the size of a slot, the flag of the account, and the binary
form of an entry. -/
class QueueEntry (α : Type) where
  size : Nat
  flag : UInt64
  reader : Reader α
  encode : α → Bytes

namespace EventEntry

def isFill (e : EventEntry) : Bool := e.flags &&& 0x01 != 0

def isOut (e : EventEntry) : Bool := e.flags &&& 0x02 != 0

def isMaker (e : EventEntry) : Bool := e.flags &&& 0x08 != 0

def side (e : EventEntry) : Side := if e.flags &&& 0x04 != 0 then .bid else .ask

def seq (e : EventEntry) : UInt64 := e.orderId.seq e.side

def price (e : EventEntry) : UInt64 := e.orderId.price

/-- Five bytes of padding follow the fee tier. -/
def reader : Reader EventEntry := do
  let flags ← Reader.byte
  let ownerSlot ← Reader.byte
  let feeTier ← Reader.byte
  Reader.skip 5
  let nativeQtyReleased ← Reader.word64
  let nativeQtyPaid ← Reader.word64
  let nativeFeeOrRebate ← Reader.word64
  let orderId ← OrderId.reader
  let owner ← PublicKey.reader
  let clientOrderId ← Reader.word64
  return { flags, ownerSlot, feeTier, nativeQtyReleased, nativeQtyPaid, nativeFeeOrRebate,
           orderId, owner, clientOrderId }

def encode (e : EventEntry) : Bytes :=
  [e.flags, e.ownerSlot, e.feeTier, 0, 0, 0, 0, 0] ++ Bytes.ofWord e.nativeQtyReleased ++
    Bytes.ofWord e.nativeQtyPaid ++ Bytes.ofWord e.nativeFeeOrRebate ++ e.orderId.toBytes ++
    e.owner.bytes ++ Bytes.ofWord e.clientOrderId

instance : QueueEntry EventEntry where
  size := 88
  flag := 0x10
  reader := reader
  encode := encode

end EventEntry

namespace RequestEntry

def isNewOrder (e : RequestEntry) : Bool := e.flags &&& 0x01 != 0

def isCancelOrder (e : RequestEntry) : Bool := e.flags &&& 0x02 != 0

def side (e : RequestEntry) : Side := if e.flags &&& 0x04 != 0 then .bid else .ask

/-- The flag for post-only orders goes before the one for immediate-or-cancel. -/
def orderType (e : RequestEntry) : OrderType :=
  if e.flags &&& 0x08 != 0 then .postOnly
  else if e.flags &&& 0x10 != 0 then .immediateOrCancel
  else .limit

def seq (e : RequestEntry) : UInt64 := e.orderId.seq e.side

def price (e : RequestEntry) : UInt64 := e.orderId.price

/-- Four bytes of padding follow the handling of self trades. -/
def reader : Reader RequestEntry := do
  let flags ← Reader.byte
  let ownerSlot ← Reader.byte
  let feeTier ← Reader.byte
  let selfTradeBehavior ← Reader.byte
  Reader.skip 4
  let maxCoinQtyOrCancelId ← Reader.word64
  let nativePcQtyLocked ← Reader.word64
  let orderId ← OrderId.reader
  let owner ← PublicKey.reader
  let clientOrderId ← Reader.word64
  return { flags, ownerSlot, feeTier, selfTradeBehavior, maxCoinQtyOrCancelId,
           nativePcQtyLocked, orderId, owner, clientOrderId }

def encode (e : RequestEntry) : Bytes :=
  [e.flags, e.ownerSlot, e.feeTier, e.selfTradeBehavior, 0, 0, 0, 0] ++
    Bytes.ofWord e.maxCoinQtyOrCancelId ++ Bytes.ofWord e.nativePcQtyLocked ++
    e.orderId.toBytes ++ e.owner.bytes ++ Bytes.ofWord e.clientOrderId

instance : QueueEntry RequestEntry where
  size := 80
  flag := 0x08
  reader := reader
  encode := encode

end RequestEntry

structure QueueHeader where
  flags : UInt64
  head : UInt64
  count : UInt64
  seq : UInt64
deriving DecidableEq

structure Queue (α : Type) where
  header : QueueHeader
  capacity : Nat
  /-- The live entries, oldest first. -/
  entries : List α
deriving DecidableEq

abbrev EventQueue := Queue EventEntry

abbrev RequestQueue := Queue RequestEntry

namespace Queue

variable {α : Type} [QueueEntry α]

def headMark : Bytes := [0x73, 0x65, 0x72, 0x75, 0x6d]

def tailMark : Bytes := [0x70, 0x61, 0x64, 0x64, 0x69, 0x6e, 0x67]

def headerLength : Nat := 32

def minLength : Nat := headMark.length + headerLength + tailMark.length

/-- The flags that the account must have: that it is initialised, and its kind. -/
def requiredFlags (α : Type) [QueueEntry α] : UInt64 := 0x01 ||| QueueEntry.flag α

def headerReader : Reader QueueHeader := do
  let flags ← Reader.word64
  let head ← Reader.word64
  let count ← Reader.word64
  let seq ← Reader.word64
  return { flags, head, count, seq }

def encodeHeader (h : QueueHeader) : Bytes :=
  Bytes.ofWord h.flags ++ Bytes.ofWord h.head ++ Bytes.ofWord h.count ++ Bytes.ofWord h.seq

def entryAt (region : Bytes) (slot : Nat) : Except LayoutError α :=
  let start := slot * QueueEntry.size α
  match QueueEntry.reader.eval ((region.drop start).take (QueueEntry.size α)) with
  | some e => .ok e
  | none => .error (.tooShort (start + QueueEntry.size α) region.length)

/-- The queue whose header and region of slots are given. -/
def ofRegion (header : QueueHeader) (region : Bytes) : Except LayoutError (Queue α) := do
  let capacity := region.length / QueueEntry.size α
  let outOfRange := LayoutError.headerOutOfRange header.head header.count capacity
  if header.flags &&& requiredFlags α ≠ requiredFlags α then
    throw (.unexpectedAccountFlags header.flags (requiredFlags α))
  if capacity = 0 then
    if header.count = 0 then return { header, capacity, entries := [] }
    throw outOfRange
  if capacity ≤ header.head.toNat ∨ capacity < header.count.toNat then throw outOfRange
  let entries ← (List.range header.count.toNat).mapM fun i =>
    entryAt region ((header.head.toNat + i) % capacity)
  return { header, capacity, entries }

def body? (data : Bytes) : Option Bytes :=
  if headMark.isPrefixOf data ∧ tailMark.isSuffixOf data then
    some ((data.drop headMark.length).take (data.length - headMark.length - tailMark.length))
  else none

def decode (data : Bytes) : Except LayoutError (Queue α) :=
  if data.length < minLength then .error (.tooShort minLength data.length)
  else
    match body? data with
    | none => .error .missingPadding
    | some body =>
      match headerReader body with
      | none => .error (.tooShort minLength data.length)
      | some (header, region) => ofRegion header region

/-- No data stands for no queue. -/
def decodeOptional (data : Bytes) : Except LayoutError (Option (Queue α)) :=
  if data.isEmpty then .ok none else (decode data).map some

/-- The slots of a ring into which `entries` are put one after another from `head` on. -/
def slots (capacity head : Nat) (entries : List α) : List Bytes :=
  entries.zipIdx.foldl
    (fun slots (e, i) => slots.set ((head + i) % max capacity 1) (QueueEntry.encode e))
    (List.replicate capacity (List.replicate (QueueEntry.size α) 0))

/-- The account data: unused slots are zero. -/
def encode (q : Queue α) : Bytes :=
  headMark ++ encodeHeader q.header ++
    (slots q.capacity q.header.head.toNat q.entries).flatten ++ tailMark

/-- The size of the largest region that can be held. -/
def maxRegion : Nat := 9223372036854775807

/-- Whether the size of the region and the number of each slot fit 64-bit arithmetic. -/
def fits (q : Queue α) : Bool :=
  q.capacity * QueueEntry.size α ≤ maxRegion &&
    q.header.head.toNat + (q.entries.length - 1) < UInt64.size

end Queue

/-! ### What was appended -/

/-- The events appended from one reading of an event queue to the next, which the sequence numbers
of the two tell. -/
def EventQueue.appended (prev : Option EventQueue) (new : EventQueue) :
    Except LayoutError (List EventEntry) :=
  match prev with
  | none => .ok new.entries
  | some prev =>
    if new.header.seq < prev.header.seq then
      .error (.seqNumRegressed prev.header.seq new.header.seq)
    else
      let appended := new.header.seq - prev.header.seq
      if appended.toNat ≤ new.entries.length then
        .ok (new.entries.drop (new.entries.length - appended.toNat))
      else .error (.overrun appended new.entries.length)

/-- The elements of the first list that are not accounted for in the second: each element there
accounts for one occurrence, the earliest first. -/
def multisetDiff {α : Type} [DecidableEq α] : List α → List α → List α
  | [], _ => []
  | x :: r, seen => if x ∈ seen then multisetDiff r (seen.erase x) else x :: multisetDiff r seen

/-- The requests of a request queue that the reading before it does not account for. -/
def RequestQueue.appended (prev : Option RequestQueue) (new : RequestQueue) : List RequestEntry :=
  match prev with
  | none => new.entries
  | some prev => multisetDiff new.entries prev.entries

end DexIndex
