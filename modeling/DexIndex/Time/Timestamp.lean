import DexIndex.Time.Date
import DexIndex.Text.Blank
import DexIndex.Text.Number

/-!
# Timestamps

Instants in UTC down to the nanosecond, leap seconds included, how far they lie apart, and their
text: the relaxed form of RFC 3339 that is read and the exact form that is written.
-/

namespace DexIndex

/-- An instant in UTC. A leap second is the second after 59, kept as nanoseconds from 10⁹ on. -/
structure Timestamp where
  date : Date
  hour : Nat
  minute : Nat
  second : Nat
  nano : Nat
  hour_lt : hour < 24
  minute_lt : minute < 60
  second_lt : second < 60
  nano_lt : nano < 2000000000
  second_eq : 1000000000 ≤ nano → second = 59
deriving DecidableEq

namespace Timestamp

def epoch : Timestamp :=
  ⟨⟨1970, 1, 1, by decide, by decide, by decide⟩, 0, 0, 0, 0, by decide, by decide, by decide,
    by decide, by decide⟩

def secondOfDay (t : Timestamp) : Nat := (t.hour * 60 + t.minute) * 60 + t.second

/-- Nanoseconds from `earlier` to `later`. A leap second that lies between two times of day counts,
where the dates are taken as days of 86400 seconds. -/
def since (later earlier : Timestamp) : Int :=
  let a := later.secondOfDay
  let b := earlier.secondOfDay
  let leap : Int :=
    if b < a then if 1000000000 ≤ earlier.nano then 1 else 0
    else if a < b then if 1000000000 ≤ later.nano then -1 else 0
    else 0
  let days := later.date.dayNumber - earlier.date.dayNumber
  (days * 86400 + (a - b) + leap) * 1000000000 + (later.nano - earlier.nano)

/-! ### Text -/

/-- The year, with a sign unless it has four digits. -/
def yearText (year : Int) : String :=
  if 0 ≤ year ∧ year ≤ 9999 then Text.padded 4 year.natAbs
  else (if year < 0 then "-" else "+") ++ Text.padded 4 year.natAbs

/-- The fraction of a second in 0, 3, 6 or 9 digits, as few as are exact. -/
def fractionText (nano : Nat) : String :=
  if nano = 0 then ""
  else if nano % 1000000 = 0 then "." ++ Text.padded 3 (nano / 1000000)
  else if nano % 1000 = 0 then "." ++ Text.padded 6 (nano / 1000)
  else "." ++ Text.padded 9 nano

/-- The RFC 3339 form in UTC; a leap second is second 60. -/
def toText (t : Timestamp) : String :=
  let leap := t.nano / 1000000000
  yearText t.date.year ++ "-" ++ Text.padded 2 t.date.month ++ "-" ++ Text.padded 2 t.date.day ++
    "T" ++ Text.padded 2 t.hour ++ ":" ++ Text.padded 2 t.minute ++ ":" ++
    Text.padded 2 (t.second + leap) ++ fractionText (t.nano % 1000000000) ++ "Z"

instance : ToString Timestamp := ⟨toText⟩

/-! ### Reading -/

/-- Takes a prefix of a text, or fails, and leaves the rest. -/
abbrev Scan (α : Type) := StateT (List Char) Option α

namespace Scan

def blanks : Scan Unit := fun cs => some ((), Text.trimStart cs)

def char (ok : Char → Bool) : Scan Char
  | [] => none
  | c :: r => if ok c then some (c, r) else none

/-- One digit or more; if there is a `limit`, no more than it allows are taken. -/
def digits (limit : Option Nat) : Scan (List Char) := fun cs =>
  let run := cs.takeWhile Char.isDigit
  let run := match limit with
    | some n => run.take n
    | none => run
  if run.isEmpty then none else some (run, cs.drop run.length)

def number (limit : Option Nat) : Scan Nat := do
  match Text.decimal? (← digits limit) with
  | some n => return n
  | none => failure

/-- A number of one or two digits after white space. -/
def pair : Scan Nat := do
  blanks
  number (some 2)

def separator (c : Char) : Scan Unit := do
  blanks
  let _ ← char (· == c)

/-- Four digits, or a sign and any number of digits, after white space. -/
def year : Scan Int := do
  blanks
  match (← get) with
  | '-' :: r => set r; return -(← number none)
  | '+' :: r => set r; return ← number none
  | _ => return ← number (some 4)

/-- The nanoseconds of a fraction, if there is one. Digits after the ninth do not count. -/
def fraction : Scan Nat := do
  match (← get) with
  | '.' :: r =>
    set r
    let ds := (← digits none).take 9
    return (Text.decimal? ds).getD 0 * Nat.pow 10 (9 - ds.length)
  | _ => return 0

/-- Two digits of which the first is below `bound`. -/
def twoDigits (bound : Char) : Scan Nat := do
  let a ← char fun c => c.isDigit && c < bound
  let b ← char Char.isDigit
  return 10 * (a.toNat - 48) + (b.toNat - 48)

/-- An offset from UTC in minutes: `Z`, `UTC`, or a sign, hours and minutes. -/
def offset : Scan Int := do
  blanks
  match (← get) with
  | u :: t :: c :: r =>
    if [u, t, c].map Char.toUpper = ['U', 'T', 'C'] then set r; return 0
  | _ => pure ()
  match (← get) with
  | 'Z' :: r | 'z' :: r => set r; return 0
  | sign :: r =>
    set r
    let negative ←
      if sign == '+' then pure false
      else if sign == '-' || sign == '\u2212' then pure true
      else failure
    let hours ← twoDigits ':'
    modify (·.dropWhile fun c => c == ':' || Text.isBlank c)
    let minutes ← twoDigits '6'
    if 24 ≤ hours then failure
    let total : Int := hours * 60 + minutes
    return if negative then -total else total
  | [] => failure

end Scan

/-- The instant at the given local date and time, which lies `offset` minutes ahead of UTC. -/
def ofLocal? (date : Date) (hour minute second nano : Nat) (offset : Int) : Option Timestamp :=
  let minuteOfDay := ((hour * 60 + minute : Nat) : Int) - offset
  let date? :=
    if minuteOfDay < 0 then date.previous?
    else if 1440 ≤ minuteOfDay then date.next?
    else some date
  let inDay := (minuteOfDay % 1440).toNat
  if h : second < 60 ∧ nano < 2000000000 ∧ (1000000000 ≤ nano → second = 59) then
    date?.map fun date =>
      { date, hour := inDay / 60, minute := inDay % 60, second, nano
        hour_lt := by omega
        minute_lt := by omega
        second_lt := h.1
        nano_lt := h.2.1
        second_eq := h.2.2 }
  else none

def scan : Scan Timestamp := do
  let year ← Scan.year
  Scan.separator '-'
  let month ← Scan.pair
  Scan.separator '-'
  let day ← Scan.pair
  let _ ← Scan.char fun c => c == 'T' || c == 't' || c == ' '
  let hour ← Scan.pair
  Scan.separator ':'
  let minute ← Scan.pair
  Scan.separator ':'
  let second ← Scan.pair
  let nano ← Scan.fraction
  let offset ← Scan.offset
  Scan.blanks
  if 24 ≤ hour || 60 ≤ minute || 61 ≤ second then failure
  let some date := Date.ofParts? year month day | failure
  let (second, nano) := if second = 60 then (59, nano + 1000000000) else (second, nano)
  match ofLocal? date hour minute second nano offset with
  | some t => return t
  | none => failure

def ofText? (s : String) : Option Timestamp :=
  match scan s.toList with
  | some (t, []) => some t
  | _ => none

end Timestamp

end DexIndex
