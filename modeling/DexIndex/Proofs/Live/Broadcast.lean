import DexIndex.Proofs.Engine.Tracking
import DexIndex.Proofs.History.Orders
import DexIndex.Proofs.Lifecycle.Replay
import DexIndex.Proofs.Live.Registry

/-!
# Subscribing while events are published

A writer makes blocks durable and publishes their events, while subscriptions are made, served and
given up. The steps of both sides run in any order, down to the single event that is published:
nothing is assumed about who holds the registry. Where the steps of a side follow each other, they are
publishing and subscribing as they are (`Broadcast.run_publish`, `Broadcast.run_subscribe`), and
the calls of an engine are such steps of the writer (`Broadcast.exists_run_of_ended`).
-/

namespace DexIndex

open BlockEvents

/-! ### The system -/

/-- What the writer is at after it has made events durable. -/
inductive Publisher
  | idle
  /-- The events are durable and the registry was not looked at. -/
  | due (events : List Event)
  /-- There were subscribers. -/
  | awaited (events : List Event)
  /-- The registry was pruned, and the events are given out one by one. -/
  | giving (events : List Event)

/-- The events that are durable and not published. -/
def Publisher.left : Publisher → List Event
  | idle => []
  | due events | awaited events | giving events => events

/-- How far subscribing has come. `seen` is how many events of the order were durable when the
history was read. -/
inductive Stage
  | registered
  | read (history : Except ReaderError OrderMachine) (seen : Nat)
  | finished (seen : Nat)
deriving DecidableEq

def Stage.seen : Stage → Nat
  | registered => 0
  | read _ seen | finished seen => seen

structure Subscription where
  key : OrderKey
  stage : Stage
  /-- What the receiver has taken from its mailbox, oldest first. -/
  received : List OrderTransition
deriving DecidableEq

structure Broadcast where
  live : Live
  /-- The blocks whose rows the store has. -/
  blocks : List BlockEvents
  publisher : Publisher
  subscriptions : Nat → Option Subscription

namespace Broadcast

/-- The steps of the writer, of subscriptions and of receivers. A number that no subscription has, or
a step that is not due, changes nothing. -/
inductive Action
  /-- Makes blocks durable. -/
  | land (blocks : List BlockEvents)
  /-- Looks whether there is anything to publish, and anyone to publish it to. -/
  | look
  /-- Takes the registry and prunes it. -/
  | prune
  /-- Publishes one event, or gives the registry back. -/
  | publish
  | register (key : OrderKey)
  /-- Reads the history, where `faults` is what the accesses run into. -/
  | read (id : Nat) (faults : List (Option StoreError))
  | finish (id : Nat)
  | unsubscribe (key : OrderKey) (id : Nat)
  | receive (id : Nat)
  | drop (id : Nat)

/-- A registry without subscribers next to a store that has the rows of blocks. -/
def start (buffer : Nat) (blocks : List BlockEvents) : Broadcast :=
  ⟨.start buffer, blocks, .idle, fun _ => none⟩

/-- The store, as the next accesses find it. -/
def store (b : Broadcast) (faults : List (Option StoreError)) : Store :=
  { Store.ofTable (tableOf b.blocks) with reads := faults }

def setSubscription (b : Broadcast) (id : Nat) (sub : Subscription) : Broadcast :=
  { b with subscriptions := Function.update b.subscriptions id (some sub) }

def step (b : Broadcast) : Action → Broadcast
  | .land blocks =>
    match b.publisher with
    | .idle =>
      { b with blocks := b.blocks ++ blocks, publisher := .due (kept (named b.blocks) blocks) }
    | _ => b
  | .look =>
    match b.publisher with
    | .due events =>
      { b with
        publisher := if events.isEmpty || b.live.tables.isEmpty then .idle else .awaited events }
    | _ => b
  | .prune =>
    match b.publisher with
    | .awaited events => { b with publisher := .giving events, live := b.live.prune }
    | _ => b
  | .publish =>
    match b.publisher with
    | .giving (e :: events) => { b with publisher := .giving events, live := b.live.publishOne e }
    | .giving [] => { b with publisher := .idle }
    | _ => b
  | .register key =>
    setSubscription { b with live := (b.live.register key).2 } (b.live.register key).1
      ⟨key, .registered, []⟩
  | .read id faults =>
    match b.subscriptions id with
    | some ⟨key, .registered, received⟩ =>
      let history := ((Ledger.ofStore (b.store faults)).orderMachine key).1
      b.setSubscription id ⟨key, .read history (keptOf b.blocks key).length, received⟩
    | _ => b
  | .finish id =>
    match b.subscriptions id with
    | some ⟨key, .read history seen, received⟩ =>
      setSubscription { b with live := (b.live.finish key id history).2 } id
        ⟨key, .finished seen, received⟩
    | _ => b
  | .unsubscribe key id => { b with live := (b.live.unsubscribe key id).2 }
  | .receive id =>
    match b.subscriptions id with
    | some sub =>
      setSubscription { b with live := (b.live.receive id).2 } id
        { sub with received := sub.received ++ (b.live.receive id).1.toList }
    | none => b
  | .drop id =>
    match b.subscriptions id with
    | some sub => setSubscription { b with live := b.live.drop id } id sub
    | none => b

def run (b : Broadcast) (actions : List Action) : Broadcast := actions.foldl step b

/-- What the receiver of a subscription has taken, and what waits for it. -/
def items (b : Broadcast) (id : Nat) : List OrderTransition :=
  ((b.subscriptions id).map (·.received)).getD [] ++
    ((b.live.mailboxes.find? id).map (·.items)).getD []

theorem run_giving (b : Broadcast) (events : List Event) (h : b.publisher = .giving events) :
    b.run (List.replicate (events.length + 1) .publish) =
      { b with publisher := .idle, live := events.foldl Live.publishOne b.live } := by
  induction events generalizing b with
  | nil =>
    show b.step .publish = _
    rw [step, h]
    rfl
  | cons e events ih =>
    have hstep : b.step .publish =
        { b with publisher := .giving events, live := b.live.publishOne e } := by
      rw [step, h]
    show (b.step .publish).run (List.replicate (events.length + 1) .publish) = _
    rw [hstep]
    exact ih { b with publisher := .giving events, live := b.live.publishOne e } rfl

/-- The steps of the writer after events became durable are one call of `Live.publish`. -/
theorem run_publish {b : Broadcast} {events : List Event} (h : b.publisher = .due events) :
    b.run (.look :: .prune :: List.replicate (events.length + 1) .publish) =
      { b with publisher := .idle, live := b.live.publish events } := by
  have hidle (b : Broadcast) (hb : b.publisher = .idle) (n : Nat) :
      b.run (.prune :: List.replicate n .publish) = b := by
    have hprune : b.step .prune = b := by rw [step, hb]
    have hpublish : b.step .publish = b := by rw [step, hb]
    show (b.step .prune).run _ = b
    rw [hprune]
    induction n with
    | zero => rfl
    | succ n ih =>
      show (b.step .publish).run (List.replicate n .publish) = b
      rw [hpublish]
      exact ih
  have hlook : b.step .look = { b with
      publisher := if events.isEmpty || b.live.tables.isEmpty then .idle else .awaited events } := by
    rw [step, h]
  show (b.step .look).run _ = _
  rw [hlook, Live.publish]
  by_cases hempty : events.isEmpty || b.live.tables.isEmpty
  · rw [if_pos hempty, if_pos hempty]
    exact hidle _ rfl _
  · rw [if_neg hempty, if_neg hempty]
    show run { b with publisher := .giving events, live := b.live.prune } _ = _
    rw [run_giving _ events rfl]

/-- What a call of an engine that succeeds does to the registry and to the store are steps of the
writer. -/
theorem exists_run_of_ended {e e' : Engine} {stored held new : List BlockEvents} {clean : Prop}
    (h : Engine.Ended e stored held new clean (.ok (), e')) {b : Broadcast}
    (hlive : b.live = e.live) (hblocks : b.blocks = stored) (hidle : b.publisher = .idle) :
    ∃ actions, (b.run actions).live = e'.live ∧ (b.run actions).publisher = .idle ∧
      e'.ledger.store.table = tableOf (b.run actions).blocks := by
  cases h with
  | holding tracks _ live =>
    exact ⟨[], hlive.trans live.symm, hidle, hblocks ▸ tracks.table⟩
  | flushed tracks _ live =>
    have hland : b.step (.land (held ++ new)) =
        { b with blocks := b.blocks ++ (held ++ new)
                 publisher := .due (kept (named b.blocks) (held ++ new)) } := by
      rw [step, hidle]
    have hrun : b.run (.land (held ++ new) :: .look :: .prune ::
        List.replicate ((kept (named b.blocks) (held ++ new)).length + 1) .publish) =
          { b.step (.land (held ++ new)) with
            publisher := .idle
            live := (b.step (.land (held ++ new))).live.publish
              (kept (named b.blocks) (held ++ new)) } :=
      run_publish (by rw [hland])
    refine ⟨_, congrArg Broadcast.live hrun |>.trans ?_, congrArg publisher hrun, ?_⟩
    · rw [hland, live, hlive, hblocks]
    · rw [hrun, tracks.table, hland, hblocks, List.append_assoc]

theorem run_subscribe (b : Broadcast) (key : OrderKey) (faults : List (Option StoreError)) :
    (b.run [.register key, .read b.live.nextId faults, .finish b.live.nextId]).live =
      (b.live.subscribe (.ofStore (b.store faults)) key).2.1 := by
  have hnew (b : Broadcast) (id : Nat) (sub : Subscription) :
      (b.setSubscription id sub).subscriptions id = some sub := Function.update_self ..
  show (((b.step (.register key)).step (.read b.live.nextId faults)).step
    (.finish b.live.nextId)).live = _
  have hid : (b.live.register key).1 = b.live.nextId := rfl
  rw [step, hid, step, hnew]
  dsimp only
  rw [step, hnew]
  rfl

end Broadcast

end DexIndex
