/-!
# Numbers as text

Decimal numerals as settings write them, padded decimal numerals, and numerals of other bases.
-/

namespace DexIndex.Text

def decimal? (cs : List Char) : Option Nat :=
  if cs.isEmpty then none
  else cs.foldlM (fun n c => if c.isDigit then some (10 * n + (c.toNat - 48)) else none) 0

/-- A natural number below `bound`, written in decimal digits after an optional plus sign. -/
def natBelow? (bound : Nat) (s : String) : Option Nat :=
  let cs := match s.toList with
    | '+' :: r => r
    | cs => cs
  (decimal? cs).filter (· < bound)

/-- An integer from minus `bound` on and below `bound`, written in decimal digits after an optional
sign. -/
def intBelow? (bound : Nat) (s : String) : Option Int :=
  match s.toList with
  | '-' :: r => ((decimal? r).filter (· ≤ bound)).map fun n => -(n : Int)
  | _ => (natBelow? bound s).map Int.ofNat

/-- The decimal numeral of `n`, filled up with zeros to `width` digits. -/
def padded (width n : Nat) : String :=
  let s := Nat.repr n
  "".pushn '0' (width - s.length) ++ s

def hexDigit? (b : UInt8) : Option Nat :=
  if 0x30 ≤ b ∧ b ≤ 0x39 then some (b.toNat - 0x30)
  else if 0x61 ≤ b ∧ b ≤ 0x66 then some (b.toNat - 0x57)
  else if 0x41 ≤ b ∧ b ≤ 0x46 then some (b.toNat - 0x37)
  else none

def digit? (base : Nat) (c : Char) : Option Nat :=
  if c.toNat < 0x80 then (hexDigit? (UInt8.ofNat c.toNat)).filter (· < base) else none

/-- The number that digits of a base up to sixteen write. -/
def numeral? (base : Nat) (cs : List Char) : Option Nat :=
  if cs.isEmpty then none
  else cs.foldlM (fun n c => (digit? base c).map (base * n + ·)) 0

/-- Whether a text writes a double: digits, perhaps with a point and an exponent, or the name of
infinity or of what is no number, after an optional sign. -/
def isDouble (cs : List Char) : Bool :=
  let unsigned (cs : List Char) := if cs.head? == some '+' || cs.head? == some '-' then cs.drop 1
    else cs
  let isExponent (cs : List Char) := let digits := unsigned cs
    !digits.isEmpty && digits.all Char.isDigit
  let cs := unsigned cs
  let mantissa := cs.takeWhile fun c => c.isDigit || c == '.'
  let isFinite := mantissa.any Char.isDigit && mantissa.count '.' ≤ 1 &&
    match cs.drop mantissa.length with
    | [] => true
    | e :: rest => (e == 'e' || e == 'E') && isExponent rest
  isFinite || ["inf", "infinity", "nan"].contains (String.ofList (cs.map Char.toLower))

/-- The hexadecimal numeral of `n` in lower case. -/
def hex (n : Nat) : String := String.ofList (Nat.toDigits 16 n)

def hexByte (b : UInt8) : String :=
  let s := hex b.toNat
  "".pushn '0' (2 - s.length) ++ s

end DexIndex.Text
