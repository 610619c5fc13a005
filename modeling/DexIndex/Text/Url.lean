import DexIndex.Bytes.Utf8
import DexIndex.Text.Number

/-!
# URLs

URLs of schemes without rules of their own: a scheme, perhaps an authority (a user, a host and the
number of a service on it), a path and a query. Blanks at the ends and tabs and line breaks anywhere
do not count. All parts keep their percent escapes.
-/

namespace DexIndex

/-- The host of a URL: a name, to which a dotted address counts too, or an address in brackets,
which is eight groups of two bytes. -/
inductive Host
  | name (text : List Char)
  | bracketed (groups : List Nat)
deriving DecidableEq

structure Authority where
  user : List Char
  password : Option (List Char)
  host : Option Host
  portNumber : Option UInt16
deriving DecidableEq

structure Url where
  scheme : String
  authority : Option Authority
  /-- The names between the slashes of the path; none if it does not start with a slash. -/
  path : Option (List (List Char))
  query : List Char
deriving DecidableEq

namespace Url

/-- The text before the first `mark`, and the text after it if there is one. -/
def cut (mark : Char) (cs : List Char) : List Char × Option (List Char) :=
  match cs.dropWhile (· != mark) with
  | [] => (cs, none)
  | _ :: rest => (cs.takeWhile (· != mark), some rest)

/-! ### Hosts -/

/-- A group of an address in brackets: up to four hexadecimal digits. -/
def group? (cs : List Char) : Option Nat :=
  if cs.length ≤ 4 then Text.numeral? 16 cs else none

/-- The two groups that a dotted address writes: four numbers without leading zeros. -/
def dottedGroups? (cs : List Char) : Option (List Nat) := do
  let bytes ← (cs.splitOn '.').mapM fun part =>
    if part.length = 1 ∨ part.head? ≠ some '0' then
      (Text.decimal? part).filter (· < UInt8.size)
    else none
  match bytes with
  | [a, b, c, d] => some [UInt8.size * a + b, UInt8.size * c + d]
  | _ => none

/-- The groups between colons; the last may be a dotted address. -/
def groups? (dotted : Bool) : List (List Char) → Option (List Nat)
  | [] => some []
  | [last] => ((group? last).map fun n => [n]).or (if dotted then dottedGroups? last else none)
  | group :: rest => do return (← group? group) :: (← groups? dotted rest)

/-- The text before the first two colons that stand together, and the text after them. -/
def cutColons : List Char → List Char × Option (List Char)
  | ':' :: ':' :: rest => ([], some rest)
  | c :: rest => (c :: (cutColons rest).1, (cutColons rest).2)
  | [] => ([], none)

/-- The address that a text between brackets writes: eight groups, or fewer where two colons stand
for at least one group of zero. -/
def bracketed? (cs : List Char) : Option (List Nat) :=
  let pieces (cs : List Char) := if cs.isEmpty then [] else cs.splitOn ':'
  match cutColons cs with
  | (all, none) => (groups? true (pieces all)).filter (·.length = 8)
  | (left, some right) => do
    let left ← groups? false (pieces left)
    let right ← groups? true (pieces right)
    let zeros := 8 - (left.length + right.length)
    if zeros = 0 then none else some (left ++ List.replicate zeros 0 ++ right)

/-- The characters that no name of a host has. -/
def hostMarks : List Char :=
  ['\x00', '\t', '\n', '\r', ' ', '#', '/', ':', '<', '>', '?', '@', '[', '\\', ']', '^', '|']

def host? (cs : List Char) : Option Host :=
  if cs.head? == some '[' then
    if cs.getLast? == some ']' then (bracketed? (cs.drop 1).dropLast).map .bracketed else none
  else if cs.any hostMarks.contains then none
  else some (.name cs)

/-- The text up to the first colon that stands outside of brackets, and the rest. -/
def spanHost (inside : Bool) : List Char → List Char × List Char
  | [] => ([], [])
  | c :: rest =>
    if c == ':' && !inside then ([], c :: rest)
    else
      let (host, rest) := spanHost (c == '[' || (inside && c != ']')) rest
      (c :: host, rest)

/-! ### Authorities -/

/-- The number after a colon, if there is one, and what follows it after a backslash. -/
def portNumber? (cs : List Char) : Option (Option UInt16 × List Char) :=
  let digits := cs.takeWhile Char.isDigit
  let rest := cs.dropWhile Char.isDigit
  if rest.isEmpty || rest.head? == some '\\' then
    if digits.isEmpty then some (none, rest)
    else (((Text.decimal? digits).filter (· < UInt16.size)).map fun n =>
      (some (UInt16.ofNat n), rest))
  else none

/-- The user and the password before an at sign; an empty password is none. -/
def user (cs : List Char) : List Char × Option (List Char) :=
  let (name, password) := cut ':' cs
  (name, password.filter (!·.isEmpty))

/-- The authority that a text writes, and what follows it after a backslash; `followed` tells
whether more of the URL stands behind. Without a host there is neither a user nor a number, and an
at sign only at the end. -/
def authority? (followed : Bool) (cs : List Char) : Option (Authority × List Char) := do
  let (behind, before) := cut '@' cs.reverse
  let (name, password) := user (before.getD []).reverse
  let (hostText, portText) := spanHost false behind.reverse
  if hostText.isEmpty then
    let lone := before.isSome && (before.getD []).isEmpty && followed
    if portText.isEmpty && name.isEmpty && password.isNone && !lone then
      some (⟨[], none, none, none⟩, [])
    else none
  else
    let host ← host? hostText
    let (number, rest) ← if portText.isEmpty then some (none, []) else portNumber? (portText.drop 1)
    some (⟨name, password, some host, number⟩, rest)

/-! ### Paths -/

def isDot (name : List Char) : Bool :=
  [".", "%2e"].contains (String.ofList (name.map Char.toLower))

def isTwoDots (name : List Char) : Bool :=
  ["..", ".%2e", "%2e.", "%2e%2e"].contains (String.ofList (name.map Char.toLower))

/-- Whether a name is a drive letter: a letter and a colon or a bar, alone or before a backslash. -/
def isDrive : List Char → Bool
  | letter :: mark :: rest =>
    letter.isAlpha && (mark == ':' || mark == '|') && rest.head?.all (· == '\\')
  | _ => false

/-- What two dots leave of the names before them, in reverse order: they take the last name away,
but never a drive letter. -/
def goUp (kept : List (List Char)) : List (List Char) :=
  if kept.head?.any isDrive then kept else kept.tail

/-- The names of a path once its dots are followed, after the names `kept` in reverse order; a dot
or two at the end leave an empty name. -/
def followDots (kept : List (List Char)) : List (List Char) → List (List Char)
  | [] => kept.reverse
  | [last] =>
    (if isTwoDots last then [] :: goUp kept else if isDot last then [] :: kept
      else last :: kept).reverse
  | name :: rest =>
    followDots (if isTwoDots name then goUp kept else if isDot name then kept else name :: kept)
      rest

def path? (cs : List Char) : Option (List (List Char)) :=
  match cs with
  | '/' :: rest => some (followDots [] (rest.splitOn '/'))
  | _ => none

/-! ### Whole URLs -/

/-- The scheme in lower case, and what follows its colon. -/
def scheme? (cs : List Char) : Option (String × List Char) := do
  let (name, rest) := cut ':' cs
  let isPart (c : Char) := c.isAlphanum || c == '+' || c == '-' || c == '.'
  if name.head?.any Char.isAlpha && name.all isPart then
    return (String.ofList (name.map Char.toLower), ← rest)
  else none

/-- A text without controls and blanks at its ends and without tabs and line breaks. -/
def strip (cs : List Char) : List Char :=
  let trimStart (cs : List Char) := cs.dropWhile (·.toNat ≤ 0x20)
  (trimStart (trimStart cs).reverse).reverse.filter fun c => c != '\t' && c != '\n' && c != '\r'

def parse? (s : String) : Option Url := do
  let (scheme, rest) ← scheme? (strip s.toList)
  let (rest, fragment) := cut '#' rest
  let (rest, query) := cut '?' rest
  match rest with
  | '/' :: '/' :: rest =>
    let (text, path) := (rest.takeWhile (· != '/'), rest.dropWhile (· != '/'))
    let followed := !path.isEmpty || query.isSome || fragment.isSome
    let (authority, more) ← authority? followed text
    let path := if more.isEmpty then path else '/' :: more ++ path
    return ⟨scheme, some authority, path? path, query.getD []⟩
  | _ => return ⟨scheme, none, path? rest, query.getD []⟩

def host (u : Url) : Option Host := u.authority.bind (·.host)

/-! ### Escapes -/

/-- The bytes that percent escapes stand for. -/
def unescape : Bytes → Bytes
  | 0x25 :: a :: b :: rest =>
    match Text.hexDigit? a, Text.hexDigit? b with
    | some m, some n => UInt8.ofNat (16 * m + n) :: unescape rest
    | _, _ => 0x25 :: unescape (a :: b :: rest)
  | b :: rest => b :: unescape rest
  | [] => []

def bytes (cs : List Char) : Bytes := unescape (Utf8.encode (String.ofList cs))

/-- A name or a value of a query, where a plus sign stands for a space. -/
def queryText (cs : List Char) : String :=
  Utf8.decodeLossy (bytes (cs.map fun c => if c == '+' then ' ' else c))

/-- The value of a name in the query; of several the last counts. -/
def query? (u : Url) (name : String) : Option String :=
  let parts := (u.query.splitOn '&').filter (!·.isEmpty)
  (parts.map fun part =>
    let (name, value) := cut '=' part
    (queryText name, queryText (value.getD []))).reverse.lookup name

end Url

end DexIndex
