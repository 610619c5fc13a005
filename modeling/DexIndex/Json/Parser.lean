import DexIndex.Json.Basic

/-!
# Parsing JSON

The grammar of JSON over bytes. A value is parsed without a bound on its depth; the fuel of the
recursion is computed from the length of the text.
-/

namespace DexIndex.Json

/-- Space, line feed, carriage return and tab. -/
def isBlank (b : UInt8) : Bool := b == 0x20 || b == 0x0a || b == 0x0d || b == 0x09

def skipBlank (bs : Bytes) : Bytes := bs.dropWhile isBlank

/-- A string after its opening quote: its content as written, and what follows its closing quote.
Escapes must be well written; control characters must be escaped. -/
def parseString : Bytes → Option (Bytes × Bytes)
  | [] => none
  | 0x22 :: r => some ([], r)
  | 0x5c :: 0x75 :: a :: b :: c :: d :: r =>
    match hexQuad? a b c d with
    | none => none
    | some _ => (parseString r).map fun (s, rest) => (0x5c :: 0x75 :: a :: b :: c :: d :: s, rest)
  | 0x5c :: e :: r =>
    match escaped? e with
    | none => none
    | some _ => (parseString r).map fun (s, rest) => (0x5c :: e :: s, rest)
  | b :: r => if b < 0x20 then none else (parseString r).map fun (s, rest) => (b :: s, rest)

def isDigit (b : UInt8) : Bool := 0x30 ≤ b && b ≤ 0x39

/-- A run of digits and what follows it. -/
def spanDigits (bs : Bytes) : Bytes × Bytes := (bs.takeWhile isDigit, bs.dropWhile isDigit)

/-- The number that a run of decimal digits writes. -/
def decimalValue (ds : Bytes) : Nat := ds.foldl (fun n d => 10 * n + (d.toNat - 0x30)) 0

/-- The digits after a point, if there is one. -/
def parseFraction : Bytes → Option (Option Bytes × Bytes)
  | 0x2e :: r =>
    match spanDigits r with
    | ([], _) => none
    | (ds, rest) => some (some ds, rest)
  | bs => some (none, bs)

/-- The sign of an exponent: whether it is a minus. -/
def parseSign : Bytes → Bool × Bytes
  | 0x2b :: r => (false, r)
  | 0x2d :: r => (true, r)
  | bs => (false, bs)

/-- The exponent, if there is one. -/
def parseExponent (bs : Bytes) : Option (Option Int × Bytes) :=
  match bs with
  | [] => some (none, bs)
  | b :: r =>
    if b == 0x65 || b == 0x45 then
      let (negative, r) := parseSign r
      match spanDigits r with
      | ([], _) => none
      | (ds, rest) =>
        some (some (if negative then -(decimalValue ds : Int) else decimalValue ds), rest)
    else some (none, bs)

/-- A number, whose first digit is a zero only if it is the only one before the point. -/
def parseNumber (bs : Bytes) : Option (Numeral × Bytes) := do
  let (negative, bs) := match bs with
    | 0x2d :: r => (true, r)
    | bs => (false, bs)
  let (whole, rest) := spanDigits bs
  if whole.isEmpty || (whole.length > 1 && whole.head? == some 0x30) then none
  let (fraction, rest) ← parseFraction rest
  let (exponent, rest) ← parseExponent rest
  let places := (fraction.getD []).length
  return (⟨negative, decimalValue (whole ++ fraction.getD []), places, exponent.getD 0,
    fraction.isNone && exponent.isNone⟩, rest)

/-- A literal word or a number. -/
def parseScalar : Bytes → Option (Json × Bytes)
  | 0x6e :: 0x75 :: 0x6c :: 0x6c :: r => some (.null, r)
  | 0x74 :: 0x72 :: 0x75 :: 0x65 :: r => some (.bool true, r)
  | 0x66 :: 0x61 :: 0x6c :: 0x73 :: 0x65 :: r => some (.bool false, r)
  | bs => (parseNumber bs).map fun (n, rest) => (.number n, rest)

mutual

/-- A value after blanks, and what follows it. -/
def parseValue : Nat → Bytes → Option (Json × Bytes)
  | 0, _ => none
  | fuel + 1, bs =>
    match skipBlank bs with
    | 0x22 :: r => (parseString r).map fun (s, rest) => (.string s, rest)
    | 0x5b :: r =>
      match skipBlank r with
      | 0x5d :: rest => some (.array [], rest)
      | r => (parseItems fuel r).map fun (vs, rest) => (.array vs, rest)
    | 0x7b :: r =>
      match skipBlank r with
      | 0x7d :: rest => some (.object [], rest)
      | r => (parseFields fuel r).map fun (fs, rest) => (.object fs, rest)
    | r => parseScalar r

/-- One item or more, and the bracket that closes them. -/
def parseItems : Nat → Bytes → Option (List Json × Bytes)
  | 0, _ => none
  | fuel + 1, bs =>
    match parseValue fuel bs with
    | none => none
    | some (v, r) =>
      match skipBlank r with
      | 0x2c :: r => (parseItems fuel r).map fun (vs, rest) => (v :: vs, rest)
      | 0x5d :: rest => some ([v], rest)
      | _ => none

/-- One field or more, and the brace that closes them. -/
def parseFields : Nat → Bytes → Option (List (Bytes × Json) × Bytes)
  | 0, _ => none
  | fuel + 1, bs =>
    match skipBlank bs with
    | 0x22 :: r =>
      match parseString r with
      | none => none
      | some (name, r) =>
        match skipBlank r with
        | 0x3a :: r =>
          match parseValue fuel r with
          | none => none
          | some (v, r) =>
            match skipBlank r with
            | 0x2c :: r => (parseFields fuel r).map fun (fs, rest) => ((name, v) :: fs, rest)
            | 0x7d :: rest => some ([(name, v)], rest)
            | _ => none
        | _ => none
    | _ => none

end

/-- The value that a whole text writes. -/
def parse? (bs : Bytes) : Option Json :=
  match parseValue (2 * bs.length + 1) bs with
  | some (v, rest) => if (skipBlank rest).isEmpty then some v else none
  | none => none

end DexIndex.Json
