import DexIndex.Chain.Block
import DexIndex.IoFault

/-!
# Block files

A block file holds one block a line. Blank lines are passed over; lines are counted from 1, and a
line that is not text is not counted. Blocks up to a given number are left out, though they must be
well formed like all others.
-/

namespace DexIndex

inductive BlockFileError
  | io (fault : IoFault)
  | invalidBlock (line : Nat)
deriving DecidableEq

def BlockFileError.message : BlockFileError → String
  | io fault => s!"block source io error: {fault.message}"
  | invalidBlock line => s!"invalid block at line {line}: not a block"

namespace BlockFile

/-- A line without the carriage return before its line feed. -/
def dropReturn (line : Bytes) : Bytes :=
  if line.getLast? == some 0x0d then line.dropLast else line

/-- The lines of a text; the last one need not end with a line feed. -/
def lines (bs : Bytes) : List Bytes :=
  if bs.isEmpty then []
  else
    let line := bs.takeWhile (· != 0x0a)
    match _h : bs.dropWhile (· != 0x0a) with
    | [] => [line]
    | _ :: rest => dropReturn line :: lines rest
termination_by bs.length
decreasing_by
  have := (List.dropWhile_suffix (· != 0x0a) (l := bs)).length_le
  rw [_h, List.length_cons] at this
  omega

def isBlank (line : String) : Bool := line.toList.all Text.isBlank

/-- What is read from the lines after the first `read` ones: a block or an error for each line that
is neither blank nor holds a block to be left out. -/
def results (after : Option UInt64) (read : Nat) : List Bytes → List (Except BlockFileError Block)
  | [] => []
  | line :: rest =>
    match Utf8.decode? line with
    | none => .error (.io .notText) :: results after read rest
    | some text =>
      if isBlank text then results after (read + 1) rest
      else
        match (Json.parse? line).bind Block.ofJson? with
        | none => .error (.invalidBlock (read + 1)) :: results after (read + 1) rest
        | some block =>
          if after.any (block.number ≤ ·) then results after (read + 1) rest
          else .ok block :: results after (read + 1) rest

/-- What is read from a file, in order; reading may go on after an error. -/
def read (after : Option UInt64) (file : Bytes) : List (Except BlockFileError Block) :=
  results after 0 (lines file)

end BlockFile

end DexIndex
