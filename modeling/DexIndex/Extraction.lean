import DexIndex.Chain.Block
import DexIndex.Exchange.Instruction
import DexIndex.Exchange.Queue

/-!
# Extraction

The order events of a block. Every instruction that a transaction which did not fail invokes on a
configured program is decoded; what it appended to the queues of its market, seen from the data of
the queue accounts before and after, becomes events. An instruction that is not supported, or whose
accounts are not all there, is skipped; a queue that cannot be read is an error.
-/

namespace DexIndex

structure BlockEvents where
  slot : UInt64
  slotHash : String
  timestamp : Timestamp
  /-- In the order of the instructions, and of the entries within an instruction. -/
  events : List Event
  ownerships : List Ownership
  skipped : Nat
deriving DecidableEq

def BlockEvents.isEmpty (b : BlockEvents) : Bool := b.events.isEmpty && b.ownerships.isEmpty

/-- A queue account by its part in an instruction. -/
inductive QueueRole
  | requestQueue
  | eventQueue
deriving DecidableEq

def QueueRole.name : QueueRole → String
  | requestQueue => "request_queue"
  | eventQueue => "event_queue"

/-- A queue that cannot be read, and where. -/
structure ExtractError where
  place : Place
  queue : QueueRole
  account : PublicKey
  cause : LayoutError
deriving DecidableEq

def ExtractError.message (e : ExtractError) : String :=
  s!"slot {e.place.slot} trx {e.place.trx} inst {e.place.inst}: " ++
    s!"cannot decode {e.queue.name} {e.account}: {e.cause.message}"

structure Site where
  slot : UInt64
  slotHash : String
  timestamp : Timestamp
  trx : Transaction
  inst : UInt64

namespace Site

def place (s : Site) : Place := ⟨s.slot, s.trx.index, s.inst⟩

def eventRef (s : Site) (market : PublicKey) (seq : UInt64) : EventRef :=
  { order := ⟨market, seq⟩, place := s.place, slotHash := s.slotHash, timestamp := s.timestamp }

def instructionRef (s : Site) : InstructionRef := ⟨s.trx.id, s.place⟩

end Site

structure Accounts where
  market : AccountMeta
  openOrders : Option AccountMeta
  requestQueue : Option AccountMeta
  eventQueue : Option AccountMeta
  owner : Option AccountMeta

namespace Accounts

def at? (trx : Transaction) (inv : Invocation) (position : Nat) : Option AccountMeta := do
  trx.account? (← inv.accounts[position]?).toNat

/-- The account at a position that the instruction may lack. -/
def atAny? (trx : Transaction) (inv : Invocation) : Option Nat → Option (Option AccountMeta)
  | none => some none
  | some position => (at? trx inv position).map some

/-- All accounts of the layout, if all are there. -/
def resolve? (trx : Transaction) (inv : Invocation) (layout : AccountLayout) : Option Accounts := do
  return {
    market := ← at? trx inv layout.market
    openOrders := ← atAny? trx inv layout.openOrders
    requestQueue := ← atAny? trx inv layout.requestQueue
    eventQueue := ← atAny? trx inv layout.eventQueue
    owner := ← atAny? trx inv layout.owner }

end Accounts

namespace Extraction

/-- What one instruction adds to a block's events. -/
structure Harvest where
  events : List Event
  ownerships : List Ownership
  skipped : Bool

def Harvest.skip : Harvest := ⟨[], [], true⟩

/-- A new order whose number is the value that the sequence counter had before it. There is none if
the queue was fresh or the counter did not advance. -/
def counterOrder (site : Site) (accounts : Accounts) (p : NewOrderParams)
    (prev : Option RequestQueue) (new : RequestQueue) : List Event :=
  match prev, accounts.owner with
  | some prev, some owner =>
    if prev.header.seq < new.header.seq then
      [{ ref := site.eventRef accounts.market.key prev.header.seq
         kind := .newOrder
          { side := p.side, price := p.limitPrice, quantity := p.maxCoinQty,
            orderType := p.orderType, clientOrderId := p.clientOrderId, trxHash := site.trx.id,
            fills := [] } owner.key }]
    else []
  | _, _ => []

/-- The event of an appended request: a new order if the instruction has an owner, or a
cancellation. -/
def requestEvent? (site : Site) (accounts : Accounts) (r : RequestEntry) : Option Event :=
  let ref := site.eventRef accounts.market.key r.seq
  if r.isNewOrder then
    accounts.owner.map fun owner =>
      { ref
        kind := .newOrder
          { side := r.side, price := r.price, quantity := r.maxCoinQtyOrCancelId,
            orderType := r.orderType, clientOrderId := r.clientOrderId, trxHash := site.trx.id,
            fills := [] } owner.key }
  else if r.isCancelOrder then some { ref, kind := .orderCancelled site.instructionRef }
  else none

/-- The event of an appended queue entry: a fill, or the removal of an order. A removal while an
order is placed is an execution; otherwise only the order's fills tell. -/
def entryEvent? (site : Site) (market : PublicKey) (purpose : Purpose) (e : EventEntry) :
    Option Event :=
  let ref := site.eventRef market e.seq
  if e.isFill then
    some {
      ref
      kind := .fill e.owner
        { side := e.side, maker := e.isMaker, price := e.price,
          nativeQtyReleased := e.nativeQtyReleased, nativeQtyPaid := e.nativeQtyPaid,
          nativeFeeOrRebate := e.nativeFeeOrRebate, feeTier := e.feeTier,
          clientOrderId := e.clientOrderId, trxHash := site.trx.id } }
  else if e.isOut then
    some {
      ref
      kind := if purpose = .newOrder then .orderExecuted else .orderClosed site.instructionRef }
  else none

/-- The change recorded for a queue account that the instruction may write. -/
def queueChange? (inv : Invocation) (account : Option AccountMeta) : Option AccountChange := do
  let account ← account
  if account.writable then inv.change? account.key else none

/-- The result of reading a queue, with the site in the error. -/
def readQueue {α : Type} (site : Site) (queue : QueueRole) (account : PublicKey)
    (r : Except LayoutError α) : Except ExtractError α :=
  r.mapError fun cause => { place := site.place, queue, account, cause }

def requestEvents (site : Site) (accounts : Accounts) (i : Instruction) (change : AccountChange) :
    Except ExtractError (List Event) := do
  let prev ← readQueue site .requestQueue change.key (Queue.decodeOptional change.before)
  let new ← readQueue site .requestQueue change.key (Queue.decode change.after)
  let placed := match i with
    | .newOrderV3 p => counterOrder site accounts p prev new
    | _ => []
  return placed ++ (RequestQueue.appended prev new).filterMap (requestEvent? site accounts)

def queueEvents (site : Site) (accounts : Accounts) (i : Instruction) (change : AccountChange) :
    Except ExtractError (List Event) := do
  let prev ← readQueue site .eventQueue change.key (Queue.decodeOptional change.before)
  let new ← readQueue site .eventQueue change.key (Queue.decode change.after)
  let appended ← readQueue site .eventQueue change.key (EventQueue.appended prev new)
  return appended.filterMap (entryEvent? site accounts.market.key i.purpose)

/-- Placing an order shows who owns the trading account. -/
def ownership? (accounts : Accounts) (i : Instruction) : Option Ownership :=
  if i.purpose = .newOrder then
    match accounts.openOrders, accounts.owner with
    | some account, some owner => some ⟨account.key, owner.key⟩
    | _, _ => none
  else none

def harvest (site : Site) (inv : Invocation) : Except ExtractError Harvest :=
  match Instruction.decode inv.data with
  | .error _ => .ok .skip
  | .ok i =>
    match Accounts.resolve? site.trx inv i.accounts with
    | none => .ok .skip
    | some accounts => do
      let requests ← match queueChange? inv accounts.requestQueue with
        | some change => requestEvents site accounts i change
        | none => .ok []
      let entries ← match queueChange? inv accounts.eventQueue with
        | some change => queueEvents site accounts i change
        | none => .ok []
      return ⟨requests ++ entries, (ownership? accounts i).toList, false⟩

def isConfigured (programs : List PublicKey) (trx : Transaction) (inv : Invocation) : Bool :=
  trx.keys[inv.program.toNat]?.any programs.contains

/-- The instructions of configured programs that a block executed, in order. -/
def executed (programs : List PublicKey) (block : Block) : List (Site × Invocation) :=
  (block.transactions.filter (!·.failed)).flatMap fun trx =>
    let own := trx.invocations.zipIdx.filter fun (inv, _) => isConfigured programs trx inv
    own.map fun (inv, i) => (⟨block.number, block.id, block.timestamp, trx, UInt64.ofNat i⟩, inv)

end Extraction

/-- The events of a block, or the first queue that cannot be read. -/
def Block.extract (programs : List PublicKey) (block : Block) :
    Except ExtractError BlockEvents := do
  let harvests ← (Extraction.executed programs block).mapM fun (site, inv) =>
    Extraction.harvest site inv
  return {
    slot := block.number, slotHash := block.id, timestamp := block.timestamp
    events := harvests.flatMap (·.events)
    ownerships := harvests.flatMap (·.ownerships)
    skipped := harvests.countP (·.skipped) }

end DexIndex
