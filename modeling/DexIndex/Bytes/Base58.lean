import DexIndex.Bytes.Word
import DexIndex.Bytes.Radix

/-!
# Base 58

A byte string is read as a big-endian number and written in base 58; each leading zero byte is
written as one leading `1`. So a byte string has one text, and a text of the alphabet has one byte
string.
-/

namespace DexIndex.Base58

/-- The digits: alphanumeric characters without `0`, `O`, `I` and `l`. -/
def alphabet : List Char :=
  "123456789ABCDEFGHJKLMNPQRSTUVWXYZabcdefghijkmnopqrstuvwxyz".toList

def char (d : Nat) : Char := alphabet.getD d '1'

def digit? (c : Char) : Option Nat := alphabet.idxOf? c

def encode (bs : Bytes) : String :=
  let zeros := (bs.takeWhile (· == 0)).length
  String.ofList (List.replicate zeros '1' ++
    (Radix.digits 56 (Bytes.valueBE bs)).reverse.map char)

def decode? (s : String) : Option Bytes := do
  let ds ← s.toList.mapM digit?
  let zeros := (ds.takeWhile (· == 0)).length
  return List.replicate zeros 0 ++
    (Radix.digits 254 (Radix.value 56 ds.reverse)).reverse.map UInt8.ofNat

end DexIndex.Base58
