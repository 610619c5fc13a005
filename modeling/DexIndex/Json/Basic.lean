import DexIndex.Bytes.Utf8
import DexIndex.Text.Number

/-!
# JSON values

A value as it is written: a string keeps its escapes, a number its digits, an object the order and
the repetition of its fields. What a string or a number stands for is worked out when it is read,
so that a value nobody reads need only be well written.
-/

namespace DexIndex

/-- A number as written: `digits`, of which the last `places` stand after the point, times ten to
the `exponent`, with a minus sign if `negative`; `integral` if it was written without fraction and
exponent. -/
structure Numeral where
  negative : Bool
  digits : Nat
  places : Nat := 0
  exponent : Int
  integral : Bool
deriving DecidableEq

namespace Numeral

def ofNat (n : Nat) : Numeral := ⟨false, n, 0, 0, true⟩

/-- The natural number written; minus zero is none. -/
def nat? (n : Numeral) : Option Nat :=
  if n.integral ∧ ¬ n.negative then some n.digits else none

/-- The leading digits of `n` that fit a word, and how many digits are left out. -/
def leading (n : Nat) : Nat × Nat :=
  if n < UInt64.size then (n, 0) else ((leading (n / 10)).1, (leading (n / 10)).2 + 1)
termination_by n
decreasing_by all_goals simp only [UInt64.size] at *; omega

/-- Appends digits to a word, up to the first after which it would be none; the digits are those of
`n`, filled up with zeros to `places`. Gives also how many were appended. -/
def append (word n : Nat) : Nat → Nat × Nat
  | 0 => (word, 0)
  | places + 1 =>
    let unit := Nat.pow 10 places
    let longer := 10 * word + n / unit
    if longer < UInt64.size then
      ((append longer (n % unit) places).1, (append longer (n % unit) places).2 + 1)
    else (word, 0)

/-- The leading digits as a word, and the power of ten that it is to be multiplied with. The digits
before the point and those after it are cut off each on their own. -/
def scaled (n : Numeral) : Nat × Int :=
  let unit := Nat.pow 10 n.places
  let (whole, dropped) := leading (n.digits / unit)
  let (word, appended) := append whole (n.digits % unit) n.places
  (word, n.exponent + dropped - appended)

/-- Twice the largest power of two that a double reaches, less half its last place: the numbers
from here on round to infinity. -/
def doubleLimit : Nat := 1 <<< 1024 - 1 <<< 970

/-- A number rounded to the 53 binary digits of a double; a half goes to the even neighbour. -/
def round53 (n : Nat) : Nat :=
  let spare := n.log2 - 52
  let kept := n >>> spare
  let rest := 2 * (n - kept <<< spare)
  (if 1 <<< spare < rest ∨ (rest = 1 <<< spare ∧ kept % 2 = 1) then kept + 1 else kept) <<< spare

/-- The largest power of ten that is a finite double. -/
def maxPower : Nat := 308

/-- Whether the number has a finite double. -/
def finite (n : Numeral) : Bool :=
  let (word, e) := n.scaled
  word == 0 || e ≤ 0 ||
    (e ≤ maxPower && round53 word * round53 (Nat.pow 10 e.toNat) < doubleLimit)

theorem scaled_ofNat {n : Nat} (h : n < UInt64.size) : (ofNat n).scaled = (n, 0) := by
  have hl : leading n = (n, 0) := by rw [leading, if_pos h]
  simp [scaled, ofNat, hl, append]

theorem finite_ofNat {n : Nat} (h : n < UInt64.size) : (ofNat n).finite := by
  simp [finite, scaled_ofNat h]

/-- A double close to the number: the leading digits that fit a word, rounded to a double, times or
over a power of ten, rounded again. Numbers that short decimals write come out exact. -/
def toFloat (n : Numeral) : Float :=
  let (word, e) := n.scaled
  let f := Float.ofNat word
  let power (k : Nat) := Float.ofScientific 1 false k
  let f :=
    if f == 0.0 then f
    else if 0 ≤ e then f * power (min e.toNat (maxPower + 1))
    else if e.natAbs ≤ maxPower then f / power e.natAbs
    else if e.natAbs ≤ 2 * maxPower then f / power maxPower / power (e.natAbs - maxPower)
    else 0.0
  if n.negative then -f else f

end Numeral

/-- A JSON value as written. -/
inductive Json
  | null
  | bool (value : Bool)
  | number (value : Numeral)
  /-- What stands between the quotes. -/
  | string (raw : Bytes)
  | array (items : List Json)
  | object (fields : List (Bytes × Json))

namespace Json

open Text (hexDigit?)

/-- The number that four hexadecimal digits write. -/
def hexQuad? (a b c d : UInt8) : Option Nat := do
  return 4096 * (← hexDigit? a) + 256 * (← hexDigit? b) + 16 * (← hexDigit? c) + (← hexDigit? d)

/-- The byte that stands for `\e`, where `e` is no `u`. -/
def escaped? (e : UInt8) : Option UInt8 :=
  match e with
  | 0x22 => some 0x22
  | 0x5c => some 0x5c
  | 0x2f => some 0x2f
  | 0x62 => some 0x08
  | 0x66 => some 0x0c
  | 0x6e => some 0x0a
  | 0x72 => some 0x0d
  | 0x74 => some 0x09
  | _ => none

/-- The bytes of the character with code point `n`. -/
def utf8 (n : Nat) : Bytes := String.utf8EncodeChar (Char.ofNat n)

/-- The bytes that a string stands for. An escaped surrogate is read only as a pair. -/
def unescape? : Bytes → Option Bytes
  | [] => some []
  | 0x5c :: 0x75 :: a :: b :: c :: d :: r => do
    let unit ← hexQuad? a b c d
    if 0xdc00 ≤ unit ∧ unit < 0xe000 then none
    else if 0xd800 ≤ unit ∧ unit < 0xdc00 then
      match r with
      | 0x5c :: 0x75 :: e :: f :: g :: h :: r => do
        let low ← hexQuad? e f g h
        if 0xdc00 ≤ low ∧ low < 0xe000 then
          return utf8 (0x10000 + (unit - 0xd800) * 0x400 + (low - 0xdc00)) ++ (← unescape? r)
        else none
      | _ => none
    else return utf8 unit ++ (← unescape? r)
  | 0x5c :: e :: r => do return (← escaped? e) :: (← unescape? r)
  | b :: r => do return b :: (← unescape? r)

/-- The text that a string's content stands for. -/
def textOf? (raw : Bytes) : Option String := (unescape? raw).bind Utf8.decode?

/-- Two lower-case hexadecimal digits. -/
def hexByte (b : UInt8) : Bytes :=
  let digit (n : UInt8) : UInt8 := if n < 10 then 0x30 + n else 0x57 + n
  [digit (b / 16), digit (b % 16)]

/-- How a byte is written within a string: only quotes, backslashes and control characters are
escaped. -/
def escapeByte (b : UInt8) : Bytes :=
  match b with
  | 0x22 => [0x5c, 0x22]
  | 0x5c => [0x5c, 0x5c]
  | 0x08 => [0x5c, 0x62]
  | 0x09 => [0x5c, 0x74]
  | 0x0a => [0x5c, 0x6e]
  | 0x0c => [0x5c, 0x66]
  | 0x0d => [0x5c, 0x72]
  | b => if b < 0x20 then [0x5c, 0x75, 0x30, 0x30] ++ hexByte b else [b]

def escape (bs : Bytes) : Bytes := bs.flatMap escapeByte

def ofText (s : String) : Json := .string (escape (Utf8.encode s))

def ofNat (n : Nat) : Json := .number (.ofNat n)

/-- An object with named fields, in order. -/
def ofFields (fields : List (String × Json)) : Json :=
  .object (fields.map fun (name, v) => (escape (Utf8.encode name), v))

mutual

/-- How deep arrays and objects are nested; a scalar has depth 0. -/
def depth : Json → Nat
  | .array items => depthItems items + 1
  | .object fields => depthFields fields + 1
  | _ => 0

def depthItems : List Json → Nat
  | [] => 0
  | v :: r => max (depth v) (depthItems r)

def depthFields : List (Bytes × Json) → Nat
  | [] => 0
  | (_, v) :: r => max (depth v) (depthFields r)

end

mutual

/-- Whether every string within stands for a text and every number is finite. -/
def sound : Json → Bool
  | .number n => n.finite
  | .string raw => (textOf? raw).isSome
  | .array items => soundItems items
  | .object fields => soundFields fields
  | _ => true

def soundItems : List Json → Bool
  | [] => true
  | v :: r => sound v && soundItems r

def soundFields : List (Bytes × Json) → Bool
  | [] => true
  | (name, v) :: r => (textOf? name).isSome && sound v && soundFields r

end

end Json

end DexIndex
