import DexIndex.Json.Basic

/-!
# Printing JSON

The compact form: no blanks, fields in the order in which they stand.
-/

namespace DexIndex

def Bytes.ofAscii (s : String) : Bytes := s.toList.map fun c => UInt8.ofNat c.toNat

/-- The decimal digits of a number. -/
def Numeral.decimal (n : Nat) : Bytes := Bytes.ofAscii (Nat.repr n)

/-- A number that is not written as an integer has all its digits before the exponent. -/
def Numeral.print (n : Numeral) : Bytes :=
  let exponent := n.exponent - n.places
  (if n.negative then [0x2d] else []) ++ decimal n.digits ++
    if n.integral then []
    else [0x65] ++ (if exponent < 0 then [0x2d] else []) ++ decimal exponent.natAbs

namespace Json

def printString (raw : Bytes) : Bytes := 0x22 :: (raw ++ [0x22])

mutual

def print : Json → Bytes
  | .null => Bytes.ofAscii "null"
  | .bool true => Bytes.ofAscii "true"
  | .bool false => Bytes.ofAscii "false"
  | .number n => n.print
  | .string raw => printString raw
  | .array [] => [0x5b, 0x5d]
  | .array (v :: r) => 0x5b :: (print v ++ printItems r)
  | .object [] => [0x7b, 0x7d]
  | .object ((name, v) :: r) => 0x7b :: (printString name ++ 0x3a :: (print v ++ printFields r))

/-- The items after the first, and the bracket. -/
def printItems : List Json → Bytes
  | [] => [0x5d]
  | v :: r => 0x2c :: (print v ++ printItems r)

/-- The fields after the first, and the brace. -/
def printFields : List (Bytes × Json) → Bytes
  | [] => [0x7d]
  | (name, v) :: r => 0x2c :: (printString name ++ 0x3a :: (print v ++ printFields r))

end

end Json

end DexIndex
