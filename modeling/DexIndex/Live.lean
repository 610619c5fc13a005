import DexIndex.History

/-!
# Live orders

Subscribers to one order receive what is known of it each time its state changes. Each has a fold
of the order's events of its own and a mailbox that holds a bounded number of items; one whose
mailbox is full when an item is due is removed, so that publishing never waits. To subscribe is
three steps, and others may run between them: the subscriber is registered, the stored history is
read, and the subscriber is seeded with the history and the events published since it was
registered.
-/

namespace DexIndex

structure Mailbox where
  /-- What was sent and not received yet, oldest first. -/
  items : List OrderTransition
  /-- Whether the receiver is still there. -/
  receiving : Bool
deriving DecidableEq

structure Subscriber where
  id : Nat
  machine : OrderMachine
  /-- The events published while the history is read; `none` once the subscriber is seeded. -/
  waiting : Option (List Event)
deriving DecidableEq

abbrev Mailboxes := List (Nat × Mailbox)

namespace Mailboxes

def find? (boxes : Mailboxes) (id : Nat) : Option Mailbox := List.lookup id boxes

def isReceiving (boxes : Mailboxes) (id : Nat) : Bool := (boxes.find? id).any (·.receiving)

def update (boxes : Mailboxes) (id : Nat) (f : Mailbox → Mailbox) : Mailboxes :=
  boxes.map fun (i, box) => if i = id then (i, f box) else (i, box)

/-- Sends an item, unless the receiver is gone or `limit` items are waiting. -/
def send? (boxes : Mailboxes) (limit id : Nat) (item : OrderTransition) : Option Mailboxes :=
  match boxes.find? id with
  | some box =>
    if box.receiving ∧ box.items.length < limit then
      some (boxes.update id fun box => { box with items := box.items ++ [item] })
    else none
  | none => none

end Mailboxes

namespace Subscriber

/-- Sends what is known of the order, if anything is. The subscriber stays unless nothing can be
sent or nothing more is to come. -/
def deliver (s : Subscriber) (limit : Nat) (boxes : Mailboxes) : Bool × Mailboxes :=
  match s.machine.transition? with
  | none => (true, boxes)
  | some item =>
    match boxes.send? limit s.id item with
    | some boxes => (!item.current.isTerminal, boxes)
    | none => (false, boxes)

/-- Takes an event that was published: keeps it while the history is read, otherwise folds it and
sends what it changed. Gives the subscriber if it stays. -/
def take (s : Subscriber) (limit : Nat) (e : Event) (boxes : Mailboxes) :
    Option Subscriber × Mailboxes :=
  match s.waiting with
  | some events => (some { s with waiting := some (events ++ [e]) }, boxes)
  | none =>
    let (machine, changed) := s.machine.apply e
    let s := { s with machine }
    if changed then
      let (stays, boxes) := s.deliver limit boxes
      (if stays then some s else none, boxes)
    else (some s, boxes)

/-- Gives an event to each of several subscribers; those that stay. -/
def takeAll (limit : Nat) (e : Event) : List Subscriber → Mailboxes → List Subscriber × Mailboxes
  | [], boxes => ([], boxes)
  | s :: rest, boxes =>
    let (kept, boxes) := s.take limit e boxes
    let (others, boxes) := takeAll limit e rest boxes
    (kept.toList ++ others, boxes)

/-- Folds the events kept so far on top of the stored history. -/
def seed (s : Subscriber) (history : OrderMachine) : Subscriber :=
  { s with machine := history.applyAll (s.waiting.getD []), waiting := none }

end Subscriber

/-- The registry: the subscribers of each order, and all mailboxes. -/
structure Live where
  /-- How many items a mailbox holds. -/
  buffer : Nat
  /-- Unbounded, as no run makes `2 ^ 64` subscriptions. -/
  nextId : Nat
  tables : List (OrderKey × List Subscriber)
  mailboxes : Mailboxes
deriving DecidableEq

namespace Live

/-- No subscribers yet; a mailbox holds at least one item. -/
def start (buffer : Nat) : Live := ⟨max buffer 1, 1, [], []⟩

/-- The largest number of items for which a mailbox can be made. -/
def maxBuffer : Nat := 2305843009213693951

/-- Whether mailboxes can be made; otherwise subscribing ends the program. -/
def canSubscribe (l : Live) : Bool := l.buffer ≤ maxBuffer

def table (l : Live) (key : OrderKey) : List Subscriber := (l.tables.lookup key).getD []

/-- Sets the subscribers of an order; an order without subscribers is not kept. -/
def setTable (l : Live) (key : OrderKey) (subscribers : List Subscriber) : Live :=
  let others := l.tables.filter (·.1 != key)
  { l with tables := if subscribers.isEmpty then others else (key, subscribers) :: others }

def prune (l : Live) : Live :=
  let tables := l.tables.map fun (key, subscribers) =>
    (key, subscribers.filter fun s => l.mailboxes.isReceiving s.id)
  { l with tables := tables.filter (!·.2.isEmpty) }

/-- First step of subscribing. Gives the number of the subscription. -/
def register (l : Live) (key : OrderKey) : Nat × Live :=
  let l := l.prune
  let l := l.setTable key (l.table key ++ [⟨l.nextId, .start key, some []⟩])
  (l.nextId, { l with
    nextId := l.nextId + 1
    mailboxes := l.mailboxes ++ [(l.nextId, ⟨[], true⟩)] })

/-- Removes a subscriber; tells whether it was registered. -/
def unsubscribe (l : Live) (key : OrderKey) (id : Nat) : Bool × Live :=
  let subscribers := l.table key
  (subscribers.any (·.id == id), l.setTable key (subscribers.filter (·.id != id)))

/-- Last step of subscribing: seeds the subscriber with the history and sends what is known. -/
def seed (l : Live) (key : OrderKey) (id : Nat) (history : OrderMachine) : Live :=
  match (l.table key).find? (·.id == id) with
  | none => l
  | some s =>
    let s := s.seed history
    let (stays, mailboxes) := s.deliver l.buffer l.mailboxes
    let others := (l.table key).filter (·.id != id)
    { l with mailboxes }.setTable key (if stays then s :: others else others)

/-- Ends subscribing once the history has been read, or could not be. -/
def finish (l : Live) (key : OrderKey) (id : Nat) (history : Except ReaderError OrderMachine) :
    Except ReaderError Nat × Live :=
  match history with
  | .ok machine => (.ok id, l.seed key id machine)
  | .error e => (.error e, (l.unsubscribe key id).2)

/-- Subscribes to an order, with nothing running between the steps. -/
def subscribe (l : Live) (ledger : Ledger) (key : OrderKey) :
    Except ReaderError Nat × Live × Ledger :=
  let (id, l) := l.register key
  let (history, ledger) := ledger.orderMachine key
  let (r, l) := l.finish key id history
  (r, l, ledger)

def publishOne (l : Live) (e : Event) : Live :=
  let (subscribers, mailboxes) := Subscriber.takeAll l.buffer e (l.table e.order) l.mailboxes
  { l with mailboxes }.setTable e.order subscribers

/-- Publishes events that have become durable. Without events or subscribers nothing is done. -/
def publish (l : Live) (events : List Event) : Live :=
  if events.isEmpty || l.tables.isEmpty then l else events.foldl publishOne l.prune

def count (l : Live) : Nat :=
  (l.tables.flatMap (·.2)).countP fun s => l.mailboxes.isReceiving s.id

/-- Whether a subscription may still be sent items. -/
def isRegistered (l : Live) (id : Nat) : Bool :=
  l.tables.any fun (_, subscribers) => subscribers.any (·.id == id)

def receive (l : Live) (id : Nat) : Option OrderTransition × Live :=
  match l.mailboxes.find? id with
  | some ⟨item :: rest, true⟩ =>
    (some item, { l with mailboxes := l.mailboxes.update id fun box => { box with items := rest } })
  | _ => (none, l)

def receiveAll (l : Live) (id : Nat) : List OrderTransition × Live :=
  let items := ((l.mailboxes.find? id).map (·.items)).getD []
  (items, { l with mailboxes := l.mailboxes.update id fun box => { box with items := [] } })

def drop (l : Live) (id : Nat) : Live :=
  { l with mailboxes := l.mailboxes.update id fun _ => ⟨[], false⟩ }

/-- A registry that nothing is published to any more; what waits can still be received. -/
def close (l : Live) : Live := { l with tables := [] }

end Live

end DexIndex
