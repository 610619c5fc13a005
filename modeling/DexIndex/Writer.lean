import DexIndex.Extraction
import DexIndex.Flush
import DexIndex.Metrics
import DexIndex.Ownership

/-!
# Writing

The events of a block become rows: first the owners seen for the first time, then each event with
its index rows, and last the checkpoint. Rows are held back until a flush writes all of them in one
batch, so that the checkpoint never appears before the rows it stands for. Events are given out
when they have become durable.
-/

namespace DexIndex

inductive WriterError
  | store (error : StoreError)
  | checkpointRegression (checkpoint slot : UInt64)
  | flushFailed (attempts : Nat) (reason : AttemptFault)
deriving DecidableEq

def WriterError.message : WriterError → String
  | store e => s!"store error: {e.message}"
  | checkpointRegression checkpoint slot =>
    s!"checkpoint regression: slot {slot} is older than checkpoint {checkpoint}"
  | flushFailed attempts reason =>
    s!"flush failed after {attempts} attempts: {reason.message}"

structure Writer where
  schedule : FlushSchedule
  policy : FlushPolicy
  metrics : Metrics
  /-- The rows not yet durable, in the order in which they are to be written. -/
  pending : List Row
  unpublished : List Event
  buffered : Option Checkpoint
  durable : Option Checkpoint
  headTime : Option Timestamp

namespace Writer

/-- A writer that goes on from a checkpoint. -/
def resume (schedule : FlushSchedule) (policy : FlushPolicy) (checkpoint : Option Checkpoint) :
    Writer :=
  { schedule, policy, metrics := .zero, pending := [], unpublished := [], buffered := checkpoint,
    durable := checkpoint, headTime := none }

/-- The rows that find a fill by its market, by its trader and by both; their values are empty. -/
def fillIndexRows (trader : PublicKey) (k : FillKey) : List Row :=
  [(k.encodeByMarket, []), (k.encodeByTrader trader, []), (k.encodeByTraderMarket trader, [])]

/-- The rows of an event; `trader` owns the trading account of a fill. -/
def eventRows (e : Event) (trader : Option PublicKey) : List Row :=
  ((OrderEventKey.ofEvent e).encode, (StoredEvent.ofEvent e trader).encode) ::
    match trader with
    | some trader => fillIndexRows trader (FillKey.ofEvent e)
    | none => []

def checkpointRow (c : Checkpoint) : Row := (Checkpoint.key, c.encode)

def hold (w : Writer) (rows : List Row) : Writer := { w with pending := w.pending ++ rows }

def holdEvent (w : Writer) (e : Event) (trader : Option PublicKey) : Writer :=
  { w.hold (eventRows e trader) with
    metrics := w.metrics.recordEvent e.type
    unpublished := w.unpublished ++ [e] }

/-- Claims the owners of a block, up to the first failing access. -/
def bufferOwnerships (w : Writer) (l : Ledger) :
    List Ownership → Except StoreError Unit × Writer × Ledger
  | [] => (.ok (), w, l)
  | o :: rest =>
    match l.claim o with
    | (.error e, l) => (.error e, w, l)
    | (.ok row, l) => (w.hold row.toList).bufferOwnerships l rest

/-- The event with its rows. A fill needs the owner of its trading account and is dropped without;
looking the owner up may fail. -/
def bufferEvent (w : Writer) (l : Ledger) (e : Event) :
    Except StoreError Unit × Writer × Ledger :=
  match e.kind with
  | .fill account _ =>
    match l.trader? account with
    | (.error err, l) => (.error err, w, l)
    | (.ok none, l) => (.ok (), { w with metrics := w.metrics.recordDroppedFill }, l)
    | (.ok (some trader), l) => (.ok (), w.holdEvent e (some trader), l)
  | _ => (.ok (), w.holdEvent e none, l)

def bufferEvents (w : Writer) (l : Ledger) : List Event → Except StoreError Unit × Writer × Ledger
  | [] => (.ok (), w, l)
  | e :: rest =>
    match w.bufferEvent l e with
    | (.error err, w, l) => (.error err, w, l)
    | (.ok (), w, l) => w.bufferEvents l rest

/-- Tries to write a batch: attempt number `attempt`, with `retries` more to follow. A retry waits
for its pause. Gives the number of retries made. -/
def tryWrite (p : FlushPolicy) (batch : List Row) :
    Nat → Nat → Store → Except WriterError Unit × Nat × Store
  | retries, attempt, s =>
    match s.attempt p.timeoutMs.toNat batch with
    | (.ok (), s) => (.ok (), 0, s)
    | (.error reason, s) =>
      match retries with
      | 0 => (.error (.flushFailed attempt reason), 0, s)
      | retries + 1 =>
        let (r, made, s) :=
          tryWrite p batch retries (attempt + 1) (s.sleep (p.pauseMs (attempt - 1)).toNat)
        (r, made + 1, s)

def countRetries (w : Writer) (n : Nat) : Writer :=
  { w with metrics := n.repeat Metrics.recordRetry w.metrics }

/-- The slot that the metrics name as head once everything buffered is durable. -/
def headSlot (w : Writer) : UInt64 := (w.buffered.map Checkpoint.slot).getD 0

/-- How far the clock has gone beyond the last block, in whole milliseconds. -/
def drift (w : Writer) (now : Timestamp) : Int :=
  (w.headTime.map fun t => Int.tdiv (now.since t) 1000000).getD 0

/-- The writer once everything pending is durable. -/
def settle (w : Writer) (now : Timestamp) (tookMs : Nat) : Writer :=
  { w with
    pending := []
    unpublished := []
    durable := w.buffered
    metrics := w.metrics.recordFlush w.headSlot (w.drift now) (tookMs * 1000000) }

/-- Makes all pending rows durable and gives out the events that have become so. If all attempts
fail, everything stays pending. -/
def flush (w : Writer) (l : Ledger) (now : Timestamp) :
    Except WriterError (List Event) × Writer × Ledger :=
  if w.pending.isEmpty then (.ok [], w, l)
  else
    match tryWrite w.policy w.pending w.policy.maxRetries.toNat 1 l.store with
    | (.error e, retries, store) => (.error e, w.countRetries retries, { l with store })
    | (.ok (), retries, store) =>
      (.ok w.unpublished,
        (w.countRetries retries).settle now (store.elapsedMs - l.store.elapsedMs),
        { l with store })

def blockCheckpoint (b : BlockEvents) : Checkpoint := ⟨b.slot, b.slotHash⟩

/-- Holds back the checkpoint of a block whose rows are all held back. -/
def holdCheckpoint (w : Writer) (b : BlockEvents) : Writer :=
  { w.hold [checkpointRow (blockCheckpoint b)] with
    buffered := some (blockCheckpoint b)
    headTime := some b.timestamp
    metrics := w.metrics.recordBlock b.skipped }

/-- Writes the events of a block and flushes if the schedule asks for it. Gives out the events
that have become durable. After a failed look-up, what was held back before it stays. -/
def writeBlock (w : Writer) (l : Ledger) (b : BlockEvents) (now : Timestamp) :
    Except WriterError (List Event) × Writer × Ledger :=
  match w.buffered.filter (b.slot < ·.slot) with
  | some checkpoint => (.error (.checkpointRegression checkpoint.slot b.slot), w, l)
  | none =>
    match w.bufferOwnerships l b.ownerships with
    | (.error e, w, l) => (.error (.store e), w, l)
    | (.ok (), w, l) =>
      match w.bufferEvents l b.events with
      | (.error e, w, l) => (.error (.store e), w, l)
      | (.ok (), w, l) =>
        let w := w.holdCheckpoint b
        match w.schedule.trigger? b.slot b.timestamp now with
        | some _ => w.flush l now
        | none => (.ok [], w, l)

end Writer

end DexIndex
