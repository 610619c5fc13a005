import DexIndex.Flush
import DexIndex.Json.Record
import DexIndex.PublicKey

/-!
# Configuration

The settings of the index, how they are read from a record and from environment variables, and when
they are valid.
-/

namespace DexIndex

inductive ConfigError
  | noProgramIds
  | invalidFlushInterval
  | invalidFlushTimeout
  | invalidMaxRetries
  | invalidBackoffMultiplier
  | invalidSubscriberBuffer
  | invalidProgramId (text : String)
  | invalidVariable (name value : String)
deriving DecidableEq

def ConfigError.message : ConfigError → String
  | noProgramIds => "at least one program id is required"
  | invalidFlushInterval => "flush_interval must be > 0"
  | invalidFlushTimeout => "flush_timeout_ms must be > 0"
  | invalidMaxRetries => "flush_max_retries must be > 0"
  | invalidBackoffMultiplier => "backoff_multiplier must be >= 1.0"
  | invalidSubscriberBuffer => "subscriber_buffer must be > 0"
  | invalidProgramId text => s!"invalid program id: {text}"
  | invalidVariable name value => s!"invalid value for {name}: {value}"

structure Config where
  programIds : List String
  flushInterval : UInt64
  nearHeadThresholdSecs : UInt64
  flushTimeoutMs : UInt64
  flushMaxRetries : UInt32
  initialBackoffMs : UInt64
  backoffMultiplier : Float
  maxBackoffMs : UInt64
  subscriberBuffer : UInt64
  storeUrl : Option String
  storeNamespace : String
  databaseUrl : Option String
  blocksPath : String

namespace Config

def default : Config :=
  { programIds := []
    flushInterval := 100
    nearHeadThresholdSecs := 25
    flushTimeoutMs := 60000
    flushMaxRetries := 3
    initialBackoffMs := 100
    backoffMultiplier := 2.0
    maxBackoffMs := 10000
    subscriberBuffer := 100
    storeUrl := none
    storeNamespace := "serum-history"
    databaseUrl := none
    blocksPath := "blocks.jsonl" }

/-! ### Changing settings -/

def withFlushInterval (c : Config) (interval : UInt64) : Config :=
  { c with flushInterval := interval }

def withFlushPolicy (c : Config) (timeoutMs : UInt64) (maxRetries : UInt32) : Config :=
  { c with flushTimeoutMs := timeoutMs, flushMaxRetries := maxRetries }

def withBackoff (c : Config) (initialMs : UInt64) (multiplier : Float) (maxMs : UInt64) : Config :=
  { c with initialBackoffMs := initialMs, backoffMultiplier := multiplier, maxBackoffMs := maxMs }

def withSubscriberBuffer (c : Config) (buffer : UInt64) : Config :=
  { c with subscriberBuffer := buffer }

/-! ### Validity -/

/-- The keys of the configured programs, or the first text that is none. -/
def programs (c : Config) : Except ConfigError (List PublicKey) :=
  c.programIds.mapM fun s =>
    match PublicKey.ofText? s with
    | some k => .ok k
    | none => .error (.invalidProgramId s)

def validate (c : Config) : Except ConfigError Unit := do
  if c.programIds.isEmpty then throw .noProgramIds
  if c.flushInterval = 0 then throw .invalidFlushInterval
  if c.flushTimeoutMs = 0 then throw .invalidFlushTimeout
  if c.flushMaxRetries = 0 then throw .invalidMaxRetries
  if c.backoffMultiplier < 1.0 then throw .invalidBackoffMultiplier
  if c.subscriberBuffer = 0 then throw .invalidSubscriberBuffer
  let _ ← c.programs

/-- The longest span of whole seconds that a threshold can be. -/
def maxThresholdSecs : Nat := 9223372036854775

/-- The near-head threshold in milliseconds, if it can be held. -/
def nearHeadThresholdMs? (c : Config) : Option Int :=
  if c.nearHeadThresholdSecs.toNat ≤ maxThresholdSecs then
    some (c.nearHeadThresholdSecs.toNat * 1000)
  else none

def flushPolicy (c : Config) : FlushPolicy :=
  { timeoutMs := c.flushTimeoutMs, maxRetries := c.flushMaxRetries
    initialBackoffMs := c.initialBackoffMs, multiplier := c.backoffMultiplier
    maxBackoffMs := c.maxBackoffMs }

/-! ### Reading -/

open Json

def fieldNames : List String :=
  ["program_ids", "flush_interval", "near_head_threshold_secs", "flush_timeout_ms",
    "flush_max_retries", "initial_backoff_ms", "backoff_multiplier", "max_backoff_ms",
    "subscriber_buffer", "redis_url", "redis_namespace", "database_url", "blocks_path"]

/-- All settings must be there but for the addresses of servers. -/
def ofJson? (j : Json) : Option Config := do
  match ← j.record? fieldNames with
  | [programs, interval, threshold, timeout, retries, initial, multiplier, maximum, buffer, url,
      nameSpace, database, path] =>
    return {
      programIds := ← required? (listOf? text?) programs
      flushInterval := ← required? word64? interval
      nearHeadThresholdSecs := ← required? word64? threshold
      flushTimeoutMs := ← required? word64? timeout
      flushMaxRetries := ← required? word32? retries
      initialBackoffMs := ← required? word64? initial
      backoffMultiplier := ← required? float? multiplier
      maxBackoffMs := ← required? word64? maximum
      subscriberBuffer := ← required? word64? buffer
      storeUrl := ← optional? (nullable? text?) none url
      storeNamespace := ← required? text? nameSpace
      databaseUrl := ← optional? (nullable? text?) none database
      blocksPath := ← required? text? path }
  | _ => none

def variableNames : List String :=
  ["SERUM_PROGRAM_IDS", "FLUSH_INTERVAL", "NEAR_HEAD_THRESHOLD_SECS", "FLUSH_TIMEOUT_MS",
    "FLUSH_MAX_RETRIES", "SUBSCRIBER_BUFFER", "REDIS_URL", "DATABASE_URL", "BLOCKS_PATH"]

/-- The texts between commas, stripped of white space, without the empty ones. -/
def splitIds (s : String) : List String :=
  let pieces := (s.toList.splitOn ',').map Text.trim
  (pieces.filter (!·.isEmpty)).map String.ofList

/-- The number that a variable sets, or a default if the variable is not set. -/
def number (env : String → Option String) (name : String) (bound : Nat) (default : Nat) :
    Except ConfigError Nat :=
  match env name with
  | none => .ok default
  | some raw =>
    match Text.natBelow? bound (String.ofList (Text.trim raw.toList)) with
    | some n => .ok n
    | none => .error (.invalidVariable name raw)

/-- The settings that environment variables give; the others are the defaults. -/
def ofEnvironment (env : String → Option String) : Except ConfigError Config := do
  let word (name : String) (default : UInt64) : Except ConfigError UInt64 :=
    (number env name UInt64.size default.toNat).map UInt64.ofNat
  let interval ← word "FLUSH_INTERVAL" default.flushInterval
  let threshold ← word "NEAR_HEAD_THRESHOLD_SECS" default.nearHeadThresholdSecs
  let timeout ← word "FLUSH_TIMEOUT_MS" default.flushTimeoutMs
  let retries ← number env "FLUSH_MAX_RETRIES" UInt32.size default.flushMaxRetries.toNat
  let buffer ← word "SUBSCRIBER_BUFFER" default.subscriberBuffer
  return { default with
    programIds := ((env "SERUM_PROGRAM_IDS").map splitIds).getD []
    flushInterval := interval
    nearHeadThresholdSecs := threshold
    flushTimeoutMs := timeout
    flushMaxRetries := UInt32.ofNat retries
    subscriberBuffer := buffer
    storeUrl := env "REDIS_URL"
    databaseUrl := env "DATABASE_URL"
    blocksPath := (env "BLOCKS_PATH").getD default.blocksPath }

end Config

end DexIndex
