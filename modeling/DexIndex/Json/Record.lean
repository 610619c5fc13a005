import DexIndex.Json.Basic

/-!
# Reading records from JSON

A record is an object with known fields or an array of its fields in order. Fields that are not
known are left out; a known one may stand only once.
-/

namespace DexIndex.Json

def text? : Json → Option String
  | .string raw => textOf? raw
  | _ => none

def bool? : Json → Option Bool
  | .bool b => some b
  | _ => none

def natBelow? (bound : Nat) : Json → Option Nat
  | .number n => n.nat?.filter (· < bound)
  | _ => none

def byte? (j : Json) : Option UInt8 := (j.natBelow? UInt8.size).map UInt8.ofNat

def word32? (j : Json) : Option UInt32 := (j.natBelow? UInt32.size).map UInt32.ofNat

def word64? (j : Json) : Option UInt64 := (j.natBelow? UInt64.size).map UInt64.ofNat

def float? : Json → Option Float
  | .number n => if n.finite then some n.toFloat else none
  | _ => none

def listOf? {α : Type} (read : Json → Option α) : Json → Option (List α)
  | .array items => items.mapM read
  | _ => none

/-- `null`, or a value. -/
def nullable? {α : Type} (read : Json → Option α) : Json → Option (Option α)
  | .null => some none
  | j => (read j).map some

/-- The fields of an object with their names as text. -/
def named? (fields : List (Bytes × Json)) : Option (List (String × Json)) :=
  fields.mapM fun (name, v) => (textOf? name).map (·, v)

/-- The value of the field `name` if it stands once, `none` within if it is absent. -/
def field? (fields : List (String × Json)) (name : String) : Option (Option Json) :=
  match fields.filter (·.1 == name) with
  | [] => some none
  | [(_, v)] => some (some v)
  | _ => none

/-- The values of the named fields, in the order of `names`. -/
def record? (names : List String) : Json → Option (List (Option Json))
  | .object fields => (named? fields).bind fun fields => names.mapM (field? fields)
  | .array items =>
    if items.length ≤ names.length then
      some (items.map some ++ List.replicate (names.length - items.length) none)
    else none
  | _ => none

def required? {α : Type} (read : Json → Option α) : Option Json → Option α
  | some j => read j
  | none => none

/-- A field that stands for `default` if it is absent. -/
def optional? {α : Type} (read : Json → Option α) (default : α) : Option Json → Option α
  | some j => read j
  | none => some default

/-- One of the named choices: its name, or an object with its name and an empty value. -/
def choice? {α : Type} (choices : List (String × α)) (j : Json) : Option α := do
  let name ← match j with
    | .string raw => textOf? raw
    | .object [(name, .null)] | .object [(name, .object [])] => textOf? name
    | _ => none
  choices.lookup name

/-- The value of the field `tag` and the rest of the record. -/
def tagged? (tag : String) : Json → Option (String × Json)
  | .object fields => do
    let named ← named? fields
    let kind ← required? text? (← field? named tag)
    return (kind, .object (fields.filter fun (name, _) => textOf? name != some tag))
  | .array (kind :: rest) => return (← kind.text?, .array rest)
  | _ => none

end DexIndex.Json
