import DexIndex.Time.Timestamp

/-!
# Flush schedule and policy

When the rows written so far are to be made durable, and how often and after which pauses a flush
is tried again.
-/

namespace DexIndex

inductive FlushTrigger
  | interval
  | nearHead
deriving DecidableEq

def FlushTrigger.name : FlushTrigger → String
  | interval => "interval"
  | nearHead => "near_head"

/-- Every how many slots to flush, and how close to the head of the chain to flush at each slot. -/
structure FlushSchedule where
  interval : UInt64
  /-- In whole milliseconds: the program makes no threshold but of whole seconds. -/
  thresholdMs : Int
  interval_pos : 0 < interval

namespace FlushSchedule

/-- An interval of no slots counts as one slot. -/
def make (interval : UInt64) (thresholdMs : Int) : FlushSchedule :=
  if h : 0 < interval then ⟨interval, thresholdMs, h⟩ else ⟨1, thresholdMs, by decide⟩

def default : FlushSchedule := make 100 25000

/-- The reason to flush after the slot `slot` of the time `slotTime`, if there is one. -/
def trigger? (s : FlushSchedule) (slot : UInt64) (slotTime now : Timestamp) :
    Option FlushTrigger :=
  if slot % s.interval = 0 then some .interval
  else if now.since slotTime < s.thresholdMs * 1000000 then some .nearHead
  else none

end FlushSchedule

structure FlushPolicy where
  timeoutMs : UInt64
  /-- How many attempts may follow the first. -/
  maxRetries : UInt32
  initialBackoffMs : UInt64
  /-- By how much each pause is longer than the one before. -/
  multiplier : Float
  maxBackoffMs : UInt64

namespace FlushPolicy

def default : FlushPolicy := ⟨60000, 3, 100, 2.0, 10000⟩

/-- The `n`-th power by repeated squaring, where `r` is the product of the powers so far; each
product is rounded. -/
def powerFrom (r x : Float) (n : Nat) : Float :=
  let r := if n % 2 = 1 then r * x else r
  if n / 2 = 0 then r else powerFrom r (x * x) (n / 2)
termination_by n

/-- The largest exponent that is told apart. -/
def maxExponent : Nat := 2147483647

/-- The pause due before the retry with number `retry`, counted from 0, in milliseconds. -/
def backoffMs (p : FlushPolicy) (retry : Nat) : UInt64 :=
  min (p.initialBackoffMs.toFloat * powerFrom 1.0 p.multiplier (min retry maxExponent)).toUInt64
    p.maxBackoffMs

/-- The longest pause that can be made: thirty years of 365 days. -/
def maxPauseMs : UInt64 := 946080000000

def pauseMs (p : FlushPolicy) (retry : Nat) : UInt64 := min (p.backoffMs retry) maxPauseMs

end FlushPolicy

end DexIndex
