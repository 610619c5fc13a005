import DexIndex.Engine
import DexIndex.LogFilter
import DexIndex.Store.SortedSet

/-!
# The service

A whole run of the index: settings come from environment variables, blocks from a file, and the
history is kept in memory. A run ends in a summary, which is a line of the log, or in the first
error. The world around it is given by an environment, what is heard from servers, a way to open
files and a clock.
-/

namespace DexIndex

inductive ServiceError
  | logFilter
  | config (error : ConfigError)
  | store (error : StoreError)
  | start (error : StartError)
  | file (error : BlockFileError)
  | engine (error : EngineError)
deriving DecidableEq

namespace ServiceError

def message : ServiceError → String
  | logFilter => "a part of RUST_LOG ends within a character"
  | config e => e.message
  | store e => e.message
  | start (.error e) | engine e => e.message
  | start .thresholdOutOfRange => "TimeDelta::seconds out of bounds"
  | file e => e.message

/-- Whether the program breaks off instead of ending. -/
def breaksOff : ServiceError → Bool
  | logFilter | start .thresholdOutOfRange => true
  | _ => false

def exitCode (e : ServiceError) : UInt8 := if e.breaksOff then 101 else 1

/-- What is written about the error. A program that breaks off starts with an empty line. -/
def report (e : ServiceError) : String := (if e.breaksOff then "\n" else "Error: ") ++ e.message

end ServiceError

/-- What a run that came to the end of its blocks has done. -/
structure Summary where
  processed : Nat
  events : UInt64
  fillsDropped : UInt64
  head : UInt64
deriving DecidableEq

namespace Summary

def ofEngine (e : Engine) (processed : Nat) : Summary :=
  let m := e.writer.metrics
  { processed, events := m.eventsWritten, fillsDropped := m.fillsDropped, head := m.head }

def toText (s : Summary) : String :=
  s!"processed={s.processed} events={s.events} fills_dropped={s.fillsDropped} head={s.head}"

/-- The part of the program that logs the summary, at the level of information. -/
def target : String := "serum_history_indexer"

def fieldNames : List String := ["message", "processed", "events", "fills_dropped", "head"]

/-- The filter without a setting: information, and more of this program. -/
def defaultFilter : LogFilter :=
  ⟨[⟨.info, none, none, none⟩, ⟨.debug, some target, none, none⟩]⟩

/-- The filter of the log. One that cannot be read counts as not set. -/
def filter (env : String → Option String) : Except ServiceError LogFilter :=
  match (env "RUST_LOG").map LogFilter.parse with
  | none | some (.error .unreadable) => .ok defaultFilter
  | some (.error .splitCharacter) => .error .logFilter
  | some (.ok filter) => .ok filter

/-- Whether a run shows its summary. -/
def isShown (env : String → Option String) : Bool :=
  match filter env with
  | .ok filter => filter.shows .info target fieldNames
  | .error _ => false

end Summary

namespace Service

/-- The store of a run. No server is ever found, so that settings that name one are an error;
`silence` is why. -/
def openStore (silence : Endpoint → IoFault) (c : Config) : Except StoreError Store :=
  match c.storeUrl with
  | none => .ok (.ofTable .empty)
  | some url =>
    (SortedSet.Client.connect (fun e => .error (silence e)) url c.storeNamespace).map fun _ =>
      .ofTable .empty

/-- The settings of a run and its engine. The filter of the log is read before them. -/
def prepare (env : String → Option String) (silence : Endpoint → IoFault) :
    Except ServiceError (Config × Engine) := do
  let _ ← Summary.filter env
  let config ← (Config.ofEnvironment env).mapError .config
  config.validate.mapError .config
  let store ← (openStore silence config).mapError .store
  let engine ← (Engine.start config store).mapError (.start ·.1)
  return (config, engine)

/-- What is read from an opened file, whose first reading may fail. -/
def readBlocks (after : Option UInt64) :
    Except IoFault Bytes → List (Except BlockFileError Block)
  | .error fault => [.error (.io fault)]
  | .ok bytes => BlockFile.read after bytes

/-- Processes the blocks of the file that the settings name, from the checkpoint on, and does not
stop before its end. No database is reached, so that there is no sink. -/
def run {m : Type → Type} [Monad m] (env : String → Option String)
    (silence : Endpoint → IoFault) (openFile : String → m (Except IoFault (Except IoFault Bytes)))
    (clock : m Timestamp) : m (Except ServiceError Summary) := do
  match prepare env silence with
  | .error e => return .error e
  | .ok (config, engine) =>
    match ← openFile config.blocksPath with
    | .error fault => return .error (.file (.io fault))
    | .ok content =>
      let blocks := readBlocks (engine.checkpoint?.map (·.slot)) content
      let (result, engine) ← engine.run clock (pure false) blocks
      return (result.mapError .engine).map (Summary.ofEngine engine)

end Service

end DexIndex
