import DexIndex.Event.Basic

/-!
# Metrics

Counters of what the index did. They wrap around at 64 bits.
-/

namespace DexIndex

structure Metrics where
  blocks : UInt64
  newOrders : UInt64
  fills : UInt64
  executed : UInt64
  cancelled : UInt64
  closed : UInt64
  fillsDropped : UInt64
  skipped : UInt64
  flushes : UInt64
  retries : UInt64
  flushNanos : UInt64
  /-- The last slot made durable. -/
  head : UInt64
  /-- How far the time of that slot lay behind the clock when it was made durable. -/
  driftMs : Int
deriving DecidableEq

namespace Metrics

def zero : Metrics := ⟨0, 0, 0, 0, 0, 0, 0, 0, 0, 0, 0, 0, 0⟩

def recordBlock (m : Metrics) (skipped : Nat) : Metrics :=
  { m with blocks := m.blocks + 1, skipped := m.skipped + UInt64.ofNat skipped }

def recordEvent (m : Metrics) : EventType → Metrics
  | .newOrder => { m with newOrders := m.newOrders + 1 }
  | .fill => { m with fills := m.fills + 1 }
  | .orderExecuted => { m with executed := m.executed + 1 }
  | .orderCancelled => { m with cancelled := m.cancelled + 1 }
  | .orderClosed => { m with closed := m.closed + 1 }

def recordDroppedFill (m : Metrics) : Metrics := { m with fillsDropped := m.fillsDropped + 1 }

def recordRetry (m : Metrics) : Metrics := { m with retries := m.retries + 1 }

/-- A flush that took `nanos`, of which no more than a word holds is counted. -/
def recordFlush (m : Metrics) (head : UInt64) (driftMs : Int) (nanos : Nat) : Metrics :=
  { m with
    flushes := m.flushes + 1
    flushNanos := m.flushNanos + UInt64.ofNat (min nanos (UInt64.size - 1))
    head, driftMs }

def eventsWritten (m : Metrics) : UInt64 :=
  m.newOrders + m.fills + m.executed + m.cancelled + m.closed

def averageFlushNanos (m : Metrics) : UInt64 :=
  if m.flushes = 0 then 0 else m.flushNanos / m.flushes

/-- The drift as it is shown: none if the slot lay ahead of the clock. -/
def shownDriftMs (m : Metrics) : Nat := m.driftMs.toNat

end Metrics

end DexIndex
