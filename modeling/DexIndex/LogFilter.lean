import DexIndex.Text.Number
import DexIndex.Text.Pattern
import DexIndex.Text.Slice

/-!
# Log filters

Which lines of the log are shown. A filter is a list of directives such as `warn`, `store=debug` or
`[{head}]=info`: a level, and the target, the span or the field of the lines that it is for. The
most specific directive that a line meets decides whether its level is shown.
-/

namespace DexIndex

inductive LogLevel
  | off
  | error
  | warn
  | info
  | debug
  | trace
deriving DecidableEq

namespace LogLevel

def all : List (String × LogLevel) :=
  [("off", off), ("error", error), ("warn", warn), ("info", info), ("debug", debug),
    ("trace", trace)]

/-- How much is shown. -/
def rank : LogLevel → Nat
  | off => 0
  | error => 1
  | warn => 2
  | info => 3
  | debug => 4
  | trace => 5

/-- A level by its name, in any case, or by its rank. -/
def ofText? (s : String) : Option LogLevel :=
  match Text.natBelow? 6 s with
  | some n => (all[n]?).map (·.2)
  | none => all.lookup (String.ofList (s.toList.map Char.toLower))

end LogLevel

/-- Why a text is no filter. -/
inductive LogFilterFault
  | unreadable
  /-- A part of a directive ends within a character. -/
  | splitCharacter
deriving DecidableEq

structure LogField where
  name : String
  /-- Whether a value is asked for. -/
  hasValue : Bool
deriving DecidableEq

namespace LogField

/-- A value that is asked for is a double or a pattern. -/
def isValue (cs : List Char) : Bool := Text.isDouble cs || Text.isPattern cs

/-- The field that a text writes: a name, and its value between the first two equals signs. -/
def parse (cs : List Char) : Except LogFilterFault LogField :=
  match cs.splitOn '=' with
  | name :: value :: _ =>
    if isValue value then .ok ⟨String.ofList name, true⟩ else .error .unreadable
  | _ => .ok ⟨String.ofList cs, false⟩

end LogField

structure LogDirective where
  level : LogLevel
  target : Option String
  span : Option String
  field : Option LogField
deriving DecidableEq

namespace LogDirective

/-- How far a directive has been read; a part that is being read has its start. -/
inductive Stage
  | start
  | word
  | span (start : Nat)
  | field (start : Nat)
  | fieldEnd
  | target
  | level (start : Nat)
deriving DecidableEq

/-- The piece of a text between two positions. -/
def piece (text : List Char) (start stop : Nat) : Except LogFilterFault (List Char) :=
  match Text.slice? start stop text with
  | some cs => .ok cs
  | none => .error .splitCharacter

/-- Whether a word may start with a character. -/
def isWordStart (c : Char) : Bool := ['-', ':', '_'].contains c || Text.isLetterOrNumber c

/-- Reads the character `c` at `i`. -/
def step (text : List Char) (i : Nat) (c : Char) :
    LogDirective × Stage → Except LogFilterFault (LogDirective × Stage)
  | (d, .start) =>
    if c == '[' then .ok (d, .span (i + 1))
    else if isWordStart c then .ok (d, .word)
    else .error .unreadable
  | (d, .word) =>
    if c == '=' || c == '[' then do
      let target := some (String.ofList (← piece text 0 i))
      return ({ d with target }, if c == '=' then .level (i + 1) else .span (i + 1))
    else .ok (d, .word)
  | (d, .span start) =>
    if c == ']' then do
      return ({ d with span := some (String.ofList (← piece text start i)) }, .target)
    else if c == '\x7b' then do
      let name ← piece text start i
      let span := if name.isEmpty then none else some (String.ofList name)
      return ({ d with span }, .field (i + 1))
    else .ok (d, .span start)
  | (d, .field start) =>
    if c == '\x7d' then do
      let text ← piece text start i
      if text.isEmpty then throw .unreadable
      return ({ d with field := some (← LogField.parse text) }, .fieldEnd)
    else .ok (d, .field start)
  | (d, .fieldEnd) => if c == ']' then .ok (d, .target) else .error .unreadable
  | (d, .target) => if c == '=' then .ok (d, .level (i + 1)) else .error .unreadable
  | (d, .level start) => .ok (d, .level start)

/-- Reads characters from the position `i` on. -/
def readFrom (text : List Char) : Nat → List Char → LogDirective × Stage →
    Except LogFilterFault (LogDirective × Stage)
  | _, [], read => .ok read
  | i, c :: rest, read => do readFrom text (i + c.utf8Size) rest (← step text i c read)

/-- Ends a directive. A single word is a level or else a target; without a level all is shown. -/
def finish (text : List Char) : LogDirective × Stage → Except LogFilterFault LogDirective
  | (d, .word) =>
    match LogLevel.ofText? (String.ofList text) with
    | some level => .ok { d with level }
    | none => .ok { d with target := some (String.ofList text) }
  | (d, .level start) => do
    let word ← piece text start (Text.byteSize text)
    if word.isEmpty then return d
    match LogLevel.ofText? (String.ofList word) with
    | some level => return { d with level }
    | none => throw .unreadable
  | (d, .target) => .ok d
  | _ => .error .unreadable

/-- The directive that a text writes. Its parts are found in the text without the blanks at its
ends and are then cut out of the text itself. -/
def parse (text : List Char) : Except LogFilterFault LogDirective := do
  finish text (← readFrom text 0 (Text.trim text) (⟨.trace, none, none, none⟩, .start))

/-- Whether a directive is for lines as such, and not for what happens within a span. -/
def isForLines (d : LogDirective) : Bool := d.span.isNone && d.field.all (!·.hasValue)

/-- Whether a line with a target and fields is one that the directive is for. -/
def isMetBy (d : LogDirective) (target : String) (fields : List String) : Bool :=
  d.isForLines && d.target.all (·.isPrefixOf target) && d.field.all (fields.contains ·.name)

/-- How specific a directive is: first by the length of its target, then by whether it has a field,
then by the characters of both. -/
def specificity (d : LogDirective) : List Nat :=
  (d.target.map (·.utf8ByteSize + 1)).getD 0 :: d.field.toList.length ::
    (d.target.getD "" ++ (d.field.map (·.name)).getD "").toList.map Char.toNat

def isLessSpecific (d d' : LogDirective) : Bool := d.specificity.lex d'.specificity Nat.blt

end LogDirective

structure LogFilter where
  directives : List LogDirective
deriving DecidableEq

namespace LogFilter

/-- What is shown if no directive says otherwise. -/
def errors : LogFilter := ⟨[⟨.error, none, none, none⟩]⟩

/-- The filter that a text writes: directives between commas, of which the first that is none
tells why. -/
def parse (s : String) : Except LogFilterFault LogFilter := do
  let parts := (s.toList.splitOn ',').filter (!·.isEmpty)
  let directives ← parts.mapM LogDirective.parse
  return if directives.isEmpty then errors else ⟨directives⟩

/-- The directive that decides about a line; of two as specific as each other the last. -/
def directive? (f : LogFilter) (target : String) (fields : List String) : Option LogDirective :=
  (f.directives.filter (·.isMetBy target fields)).foldl
    (fun best d => if best.any d.isLessSpecific then best else some d) none

def shows (f : LogFilter) (level : LogLevel) (target : String) (fields : List String) : Bool :=
  (f.directive? target fields).any fun d => level.rank ≤ d.level.rank

end LogFilter

end DexIndex
