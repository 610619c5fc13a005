import DexIndex.Text.Blank
import DexIndex.Text.Letter
import DexIndex.Text.Number

/-!
# Patterns

Which texts are patterns: regular expressions of characters, classes, groups and repetitions. Of
characters beyond ASCII nothing but their order is known. So a pattern is refused if it asks for
more: for letters in any case, for the digits, blanks or characters of words, or for the bounds of
words. Flags narrow a pattern to ASCII; then it is refused if it may match a part of a character.

Patterns stand within braces. A brace within one therefore stays open, whatever it is to count.
-/

namespace DexIndex.Text.Pattern

structure Flags where
  /-- Whether the case of letters does not matter. -/
  anyCase : Bool
  /-- Whether the pattern is narrowed to ASCII. -/
  ascii : Bool
  /-- Whether blanks and comments do not count. -/
  spaced : Bool
deriving DecidableEq

namespace Flags

def default : Flags := ⟨false, false, false⟩

/-- The letters of flags. Those for lines, for greed and for the point do not matter here. -/
def letters : List Char := ['i', 'm', 's', 'U', 'u', 'R', 'x']

/-- The flags after a change: letters turn flags on, behind a hyphen off, each once at most. -/
def change? (f : Flags) (text : List Char) : Option Flags :=
  if text.all (fun c => ('-' :: letters).contains c && text.count c == 1) &&
      text.getLast? != some '-' then
    let on := text.takeWhile (· != '-')
    let turned (letter : Char) (old : Bool) : Bool :=
      on.contains letter || (old && !text.contains letter)
    some ⟨turned 'i' f.anyCase, !turned 'u' !f.ascii, turned 'x' f.spaced⟩
  else none

/-- A text without the blanks and comments at its start; a comment ends with its line. -/
def skipFrom (comment : Bool) : List Char → List Char
  | [] => []
  | c :: cs =>
    if comment then skipFrom (c != '\n') cs
    else if c == '#' then skipFrom true cs
    else if isBlank c then skipFrom false cs
    else c :: cs

/-- A text from its first character that counts. -/
def skip (f : Flags) (cs : List Char) : List Char := if f.spaced then skipFrom false cs else cs

/-- Whether a character may stand outside of classes. -/
def allowsCharacter (f : Flags) : Bool := f.ascii || !f.anyCase

/-- Whether a character may stand in a class, or a byte anywhere. -/
def allowsMember (f : Flags) (c : Char) : Bool :=
  if f.ascii then c.toNat < 0x80 else !f.anyCase

end Flags

/-! ### Escapes -/

/-- What a backslash and the characters behind it stand for. -/
inductive Escape
  | character (c : Char)
  /-- A character that is written with two digits. -/
  | byte (c : Char)
  /-- The digits, the blanks or the characters of words, or all but those. -/
  | named (others : Bool)
  | wordBound
  | textBound

namespace Escape

def allowed (f : Flags) : Escape → Bool
  | character _ => f.allowsCharacter
  | byte c => f.allowsMember c
  | named others => f.ascii && !others
  | wordBound => f.ascii
  | textBound => true

/-- The letters that stand for controls. -/
def controls : List (Char × Char) :=
  [('a', '\x07'), ('f', '\x0c'), ('t', '\t'), ('n', '\n'), ('r', '\r'), ('v', '\x0b')]

/-- The letters before hexadecimal digits, and how many digits follow. -/
def digitCounts : List (Char × Nat) := [('x', 2), ('u', 4), ('U', 8)]

/-- Reads a character written with `count` more digits, where `n` is the number read so far. -/
def hexadecimal? (f : Flags) : (count n : Nat) → List Char → Option (Char × List Char)
  | 0, n, cs => if h : n.isValidChar then some (.ofNatAux n h, cs) else none
  | count + 1, n, cs =>
    match f.skip cs with
    | [] => none
    | c :: rest => (digit? 16 c).bind fun d => hexadecimal? f count (16 * n + d) rest

/-- Reads the characters behind a backslash. Marks stand for themselves; digits would refer to
groups, and letters without a meaning are kept for later ones. -/
def read? (f : Flags) : List Char → Option (Escape × List Char)
  | [] => none
  | c :: cs =>
    match digitCounts.lookup c, controls.lookup c with
    | some count, _ =>
      (hexadecimal? f count 0 cs).map fun (d, rest) =>
        (if count = 2 then byte d else character d, rest)
    | none, some d => some (character d, cs)
    | none, none =>
      if ['d', 's', 'w'].contains c then some (named false, cs)
      else if ['D', 'S', 'W'].contains c then some (named true, cs)
      else if ['b', 'B', '<', '>'].contains c then some (wordBound, cs)
      else if ['A', 'z'].contains c then some (textBound, cs)
      else if c.isAlphanum || 0x80 ≤ c.toNat then none
      else some (character c, cs)

end Escape

/-! ### Depths -/

/-- Things read one after the other: how many, and how deep the deepest is. -/
structure Row where
  count : Nat
  deepest : Nat

namespace Row

def empty : Row := ⟨0, 0⟩

def add (r : Row) (depth : Nat) : Row := ⟨r.count + 1, max r.deepest depth⟩

/-- How deep a row is: a thing alone is no deeper than itself. -/
def depth (r : Row) : Nat := if r.count ≤ 1 then r.deepest else r.deepest + 1

end Row

/-! ### Classes -/

def className (name : String) : Bool :=
  ["alnum", "alpha", "ascii", "blank", "cntrl", "digit", "graph", "lower", "print", "punct",
    "space", "upper", "word", "xdigit"].contains name

/-- Reads a class within a class that is written by its name, such as `[:alpha:]`, behind its
bracket; whether it stands for all other characters. -/
def namedClass? : List Char → Option (Bool × List Char)
  | ':' :: cs =>
    let others := cs.head? == some '^'
    let cs := if others then cs.drop 1 else cs
    let name := cs.takeWhile (· != ':')
    match cs.drop name.length with
    | ':' :: ']' :: rest =>
      if className (String.ofList name) then some (others, rest) else none
    | _ => none
  | _ => none

/-- Reads a member of a class; it has no character if it is a class by itself. -/
def member? (f : Flags) : List Char → Option (Option Char × List Char)
  | [] => none
  | '\\' :: cs => do
    let (e, rest) ← Escape.read? f cs
    match e with
    | .character c | .byte c => if f.allowsMember c then some (some c, rest) else none
    | .named _ => if e.allowed f then some (none, rest) else none
    | .wordBound | .textBound => none
  | c :: cs => if f.allowsMember c then some (some c, cs) else none

/-- Reads a member of a class, or a range of them. A hyphen makes no range before another hyphen or
before the end of the class. -/
def range? (f : Flags) (cs : List Char) : Option (List Char) := do
  let (low?, cs) ← member? f cs
  match f.skip cs with
  | '-' :: rest =>
    match f.skip rest with
    | [] => none
    | ']' :: _ | '-' :: _ => return cs
    | rest =>
      let (high?, rest) ← member? f rest
      let low ← low?
      let high ← high?
      if low.toNat ≤ high.toNat then return rest else none
  | _ => return cs

/-- Reads the caret of a class behind its bracket. All other characters are more than ASCII. -/
def caret? (f : Flags) (cs : List Char) : Option (List Char) :=
  match f.skip cs with
  | '^' :: rest => if f.ascii then none else some rest
  | rest => some rest

/-- The depth of the operand `row` and of the operands `left` of it. -/
def operandDepth (left : Option Nat) (row : Row) : Nat :=
  match left with
  | none => row.depth
  | some depth => max depth row.depth + 1

/-- Reads a class behind its caret: its depth, and the text behind it. At its start hyphens stand
for themselves, and so does a bracket that would end it. -/
def class? (f : Flags) : (fuel : Nat) → (atStart : Bool) → (left : Option Nat) → Row →
    List Char → Option (Nat × List Char)
  | 0, _, _, _, _ => none
  | fuel + 1, atStart, left, row, cs =>
    match f.skip cs with
    | [] => none
    | c :: rest =>
      if atStart && (c == '-' || (c == ']' && row.count == 0)) then
        if f.allowsMember c then class? f fuel (c == '-') left (row.add 0) rest else none
      else if c == ']' then some (operandDepth left row + 1, rest)
      else if c == '[' then
        match namedClass? rest with
        | some (others, rest) =>
          if f.allowsCharacter && !(f.ascii && others) then
            class? f fuel false left (row.add 0) rest
          else none
        | none => do
          let (depth, rest) ← class? f fuel true none .empty (← caret? f rest)
          class? f fuel false left (row.add depth) rest
      else if ['&', '-', '~'].contains c && rest.head? == some c then
        class? f fuel false (some (operandDepth left row)) .empty (rest.drop 1)
      else do
        class? f fuel false left (row.add 0) (← range? f (c :: rest))

/-! ### Groups -/

/-- What an opening parenthesis is for. -/
inductive Opening
  /-- A change of flags up to the end of the group around it. -/
  | change (f : Flags)
  | group (f : Flags) (names : List (List Char))

def isGroupName : List Char → Bool
  | [] => false
  | c :: cs =>
    (c == '_' || isLetter c) &&
      cs.all fun c => ['_', '.', '[', ']'].contains c || isLetterOrNumber c

/-- Reads what follows an opening parenthesis: the name of a group, which is none of `names`, or
flags. -/
def opening? (f : Flags) (names : List (List Char)) (cs : List Char) :
    Option (Opening × List Char) :=
  match f.skip cs with
  | '?' :: 'P' :: '<' :: rest | '?' :: '<' :: rest =>
    let name := rest.takeWhile (· != '>')
    if isGroupName name && !names.contains name && name.length < rest.length then
      some (.group f (name :: names), rest.drop (name.length + 1))
    else none
  | '?' :: rest => do
    let text := rest.takeWhile fun c => c != ':' && c != ')'
    let changed ← f.change? text
    match rest.drop text.length with
    | ':' :: rest => some (.group changed names, rest)
    | ')' :: rest => if text.isEmpty then none else some (.change changed, rest)
    | _ => none
  | rest => some (.group f names, rest)

/-- Reads what is neither a group nor a class nor a repetition. -/
def single? (f : Flags) : List Char → Option (List Char)
  | [] => none
  | '\\' :: cs => do
    let (e, rest) ← Escape.read? f cs
    if e.allowed f then some rest else none
  | '.' :: cs => if f.ascii then none else some cs
  | '^' :: cs | '$' :: cs => some cs
  | _ :: cs => if f.allowsCharacter then some cs else none

/-- The depths of the items of a branch; a change of flags has none and cannot be repeated. -/
abbrev Branch := List (Option Nat)

def Branch.depth (items : Branch) : Nat :=
  (items.foldl (fun row item => row.add (item.getD 0)) Row.empty).depth

/-- Reads a group up to a parenthesis that closes it or to the end: its depth, the names of groups
that it adds to, and the rest. The items of the branch that is being read come last first. -/
def group? : (fuel : Nat) → Flags → List (List Char) → (branches : Row) → Branch → List Char →
    Option (Nat × List (List Char) × List Char)
  | 0, _, _, _, _, _ => none
  | fuel + 1, f, names, branches, items, cs =>
    match f.skip cs with
    | [] => some ((branches.add items.depth).depth, names, [])
    | c :: rest =>
      if c == ')' then some ((branches.add items.depth).depth, names, c :: rest)
      else if c == '|' then group? fuel f names (branches.add items.depth) [] rest
      else if c == '(' then do
        match ← opening? f names rest with
        | (.change f, rest) => group? fuel f names branches (none :: items) rest
        | (.group inner names, rest) =>
          let (depth, names, rest) ← group? fuel inner names .empty [] rest
          if rest.isEmpty then none
          else group? fuel f names branches (some (depth + 1) :: items) (rest.drop 1)
      else if c == '[' then do
        let (depth, rest) ← class? f (rest.length + 1) true none .empty (← caret? f rest)
        group? fuel f names branches (some depth :: items) rest
      else if ['?', '*', '+'].contains c then
        match items with
        | some depth :: items =>
          let rest := if rest.head? == some '?' then rest.drop 1 else rest
          group? fuel f names branches (some (depth + 1) :: items) rest
        | _ => none
      else if c == '\x7b' then none
      else do
        group? fuel f names branches (some 0 :: items) (← single? f (c :: rest))

end Pattern

/-- How deep a pattern may be. -/
def maxPatternDepth : Nat := 250

def isPattern (cs : List Char) : Bool :=
  (Pattern.group? (cs.length + 1) .default [] .empty [] cs).any fun (depth, _, rest) =>
    rest.isEmpty && depth ≤ maxPatternDepth

end DexIndex.Text
