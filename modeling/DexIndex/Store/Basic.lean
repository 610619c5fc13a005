import DexIndex.Store.Table
import DexIndex.Key
import DexIndex.Time.Span

/-!
# Stores

A store is a table behind accesses that may fail. What the next accesses run into is part of its
state: a read succeeds or ends in an error; an attempt to write a batch succeeds, ends in an error
or never ends, and an attempt that does not succeed has written all of its batch or nothing. Time
passes in whole milliseconds, by waiting only.
-/

namespace DexIndex

/-- Why a row that is there cannot be used. -/
inductive RowFault
  | undecodable (error : CodecError)
  | withoutValue (key : Bytes)
deriving DecidableEq

def RowFault.message : RowFault → String
  | undecodable e => e.message
  | withoutValue key => s!"indexed key without value: {Base58.encode key}"

inductive StoreError
  | connection (text : String)
  | backend (text : String)
  | corrupt (fault : RowFault)
deriving DecidableEq

def StoreError.message : StoreError → String
  | connection text => s!"store connection error: {text}"
  | backend text => s!"store backend error: {text}"
  | corrupt fault => s!"corrupt row: {fault.message}"

/-- What an attempt to write a batch runs into; `applied` tells whether the batch was written
although the attempt did not succeed. -/
inductive WriteOutcome
  | works
  | fails (error : StoreError) (applied : Bool)
  | hangs (applied : Bool)
deriving DecidableEq

structure Store where
  table : Table
  /-- What the next reads run into; later ones succeed. -/
  reads : List (Option StoreError)
  /-- What the next attempts to write run into; later ones succeed. -/
  writes : List WriteOutcome
  /-- How many attempts to write there were. -/
  attempts : Nat
  elapsedMs : Nat

/-- Why an attempt to write did not succeed. -/
inductive AttemptFault
  | store (error : StoreError)
  | timedOut (ms : Nat)
deriving DecidableEq

def AttemptFault.message : AttemptFault → String
  | store e => e.message
  | timedOut ms => s!"timed out after {Span.text ms}"

namespace Store

/-- A store over a table on which every access succeeds. -/
def ofTable (t : Table) : Store := ⟨t, [], [], 0, 0⟩

def read {α : Type} (s : Store) (f : Table → α) : Except StoreError α × Store :=
  let rest := { s with reads := s.reads.tail }
  match s.reads.head?.join with
  | some e => (.error e, rest)
  | none => (.ok (f s.table), rest)

def get (s : Store) (key : Bytes) : Except StoreError (Option Bytes) × Store :=
  s.read (·.get? key)

def scan (s : Store) (p : Bytes) (limit : Option Nat) : Except StoreError (List Row) × Store :=
  s.read (·.scan p limit)

/-- One attempt to write a batch, given up after `timeoutMs`. -/
def attempt (s : Store) (timeoutMs : Nat) (batch : List Row) : Except AttemptFault Unit × Store :=
  let rest := { s with writes := s.writes.tail, attempts := s.attempts + 1 }
  let written (applied : Bool) :=
    if applied then { rest with table := s.table.insertAll batch } else rest
  match s.writes.headD .works with
  | .works => (.ok (), written true)
  | .fails e applied => (.error (.store e), written applied)
  | .hangs applied =>
    let s := written applied
    (.error (.timedOut timeoutMs), { s with elapsedMs := s.elapsedMs + timeoutMs })

def sleep (s : Store) (ms : Nat) : Store := { s with elapsedMs := s.elapsedMs + ms }

end Store

end DexIndex
