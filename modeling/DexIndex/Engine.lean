import DexIndex.Chain.BlockFile
import DexIndex.Config
import DexIndex.Live
import DexIndex.Writer

/-!
# The engine

Drives blocks through the index one at a time: a block that was not processed yet is extracted and
written, and the events that become durable thereby are handed to the sink, if there is one, and
then published. An engine starts from the checkpoint of its store.
-/

namespace DexIndex

inductive EngineError
  | config (error : ConfigError)
  | store (error : StoreError)
  | corruptCheckpoint (error : CodecError)
  | extract (error : ExtractError)
  | writer (error : WriterError)
  | source (error : BlockFileError)
deriving DecidableEq

def EngineError.message : EngineError → String
  | config e => s!"configuration error: {e.message}"
  | store e => s!"store error: {e.message}"
  | corruptCheckpoint e => s!"corrupt checkpoint: {e.message}"
  | extract e => s!"extraction error: {e.message}"
  | writer e => s!"writer error: {e.message}"
  | source e => s!"block source error: {e.message}"

/-- Why an engine does not start: an error, or a threshold beyond the longest span of time, which
ends the program. -/
inductive StartError
  | error (cause : EngineError)
  | thresholdOutOfRange
deriving DecidableEq

inductive SinkCall
  | write (events : List Event)
  | flush
deriving DecidableEq

/-- A receiver of durable events. Whether its calls succeed makes no difference to the engine. -/
structure Sink where
  /-- Whether the next calls succeed; later ones do. -/
  answers : List Bool
  /-- The calls so far. -/
  calls : List SinkCall
deriving DecidableEq

def Sink.call (s : Sink) (c : SinkCall) : Bool × Sink :=
  (s.answers.headD true, ⟨s.answers.tail, s.calls ++ [c]⟩)

structure Engine where
  programs : List PublicKey
  writer : Writer
  live : Live
  ledger : Ledger
  sink : Option Sink
  lastSlot : Option UInt64

namespace Engine

/-- The checkpoint that a store has. -/
def storedCheckpoint (l : Ledger) : Except EngineError (Option Checkpoint) × Ledger :=
  match l.get Checkpoint.key with
  | (.error e, l) => (.error (.store e), l)
  | (.ok none, l) => (.ok none, l)
  | (.ok (some value), l) => (((Checkpoint.decode value).map some).mapError .corruptCheckpoint, l)

/-- Starts an engine on a store. If that fails, the store is given back. -/
def start (c : Config) (store : Store) : Except (StartError × Store) Engine :=
  match c.validate, c.programs with
  | .error e, _ | .ok (), .error e => .error (.error (.config e), store)
  | .ok (), .ok programs =>
    match storedCheckpoint (.ofStore store) with
    | (.error e, l) => .error (.error e, l.store)
    | (.ok checkpoint, l) =>
      match l.loadOwners with
      | (.error e, l) => .error (.error (.store e), l.store)
      | (.ok _, ledger) =>
        match c.nearHeadThresholdMs? with
        | none => .error (.thresholdOutOfRange, ledger.store)
        | some threshold =>
          .ok {
            programs
            writer := .resume (.make c.flushInterval threshold) c.flushPolicy checkpoint
            live := .start c.subscriberBuffer.toNat
            ledger
            sink := none
            lastSlot := checkpoint.map (·.slot) }

def checkpoint? (e : Engine) : Option Checkpoint := e.writer.durable

/-- Calls the sink, if there is one, and goes on whatever it answers. -/
def callSink (e : Engine) (c : SinkCall) : Engine :=
  { e with sink := e.sink.map fun s => (s.call c).2 }

/-- Hands durable events to the sink and publishes them. -/
def emit (e : Engine) (durable : List Event) : Engine :=
  if durable.isEmpty then e
  else
    let e := e.callSink (.write durable)
    { e with live := e.live.publish durable }

def isProcessed (e : Engine) (block : Block) : Bool := e.lastSlot.any (block.number ≤ ·)

/-- Processes a block, unless it was processed before. -/
def processBlock (e : Engine) (block : Block) (now : Timestamp) :
    Except EngineError Unit × Engine :=
  if e.isProcessed block then (.ok (), e)
  else
    match block.extract e.programs with
    | .error err => (.error (.extract err), e)
    | .ok events =>
      match e.writer.writeBlock e.ledger events now with
      | (.error err, writer, ledger) => (.error (.writer err), { e with writer, ledger })
      | (.ok durable, writer, ledger) =>
        (.ok (), { e with writer, ledger, lastSlot := some block.number }.emit durable)

/-- Makes everything durable and tells the sink. -/
def shutdown (e : Engine) (now : Timestamp) : Except EngineError Unit × Engine :=
  match e.writer.flush e.ledger now with
  | (.error err, writer, ledger) => (.error (.writer err), { e with writer, ledger })
  | (.ok durable, writer, ledger) =>
    (.ok (), ({ e with writer, ledger }.emit durable).callSink .flush)

/-- Shuts down a run that has processed so many blocks. -/
def finish (e : Engine) (processed : Nat) (now : Timestamp) : Except EngineError Nat × Engine :=
  let (r, e) := e.shutdown now
  (r.map fun () => processed, e)

/-- Processes what a block file gives, up to the first error, and shuts down at its end or when
asked to stop, which is looked at before each block. The clock is read for each block. Gives the
number of blocks that were taken from the file, with `processed` taken before. -/
def runFrom {m : Type → Type} [Monad m] (clock : m Timestamp) (stopping : m Bool) (e : Engine)
    (processed : Nat) : List (Except BlockFileError Block) → m (Except EngineError Nat × Engine)
  | [] => return e.finish processed (← clock)
  | next :: rest => do
    if ← stopping then return e.finish processed (← clock)
    match next with
    | .error err => return (.error (.source err), e)
    | .ok block =>
      match e.processBlock block (← clock) with
      | (.error err, e) => return (.error err, e)
      | (.ok (), e) => runFrom clock stopping e (processed + 1) rest

def run {m : Type → Type} [Monad m] (clock : m Timestamp) (stopping : m Bool) (e : Engine)
    (blocks : List (Except BlockFileError Block)) : m (Except EngineError Nat × Engine) :=
  e.runFrom clock stopping 0 blocks

end Engine

end DexIndex
