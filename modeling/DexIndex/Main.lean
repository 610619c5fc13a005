import DexIndex.Service
import Std.Time.DateTime

/-!
# The command line

The program takes its settings from environment variables and prints a summary of its run, or the
error that ended it.
-/

namespace DexIndex.Main

def environment : IO (String → Option String) := do
  let names := "RUST_LOG" :: Config.variableNames
  let values ← names.mapM fun name => return (name, ← IO.getEnv name)
  return fun name => (values.lookup name).join

def faultOf : IO.Error → IoFault
  | .noFileOrDirectory .. => .noSuchFile
  | .permissionDenied .. => .permissionDenied
  | .inappropriateType _ code _ => if code = 21 then .isDirectory else .notDirectory
  | e => .other e.toString

/-- The result of an action, or its fault. -/
def attempt {α : Type} (act : IO α) : IO (Except IoFault α) := do
  try
    return .ok (← act)
  catch e => return .error (faultOf e)

/-- Opens a file and reads it; a directory can be opened but not read. -/
def openFile (path : String) : IO (Except IoFault (Except IoFault Bytes)) :=
  attempt do
    let handle ← IO.FS.Handle.mk path .read
    attempt do return (← handle.readBinToEnd).toList

/-- The time of the clock, which lies within the calendar. -/
def clock : IO Timestamp := do
  let now := Std.Time.PlainDateTime.ofWallTime ((← Std.Time.Timestamp.now).toWallTime .zero)
  let time? := do
    let date ← Date.ofParts? now.date.year.toInt now.date.month.toNat now.date.day.toNat
    Timestamp.ofLocal? date now.time.hour.toNat now.time.minute.toNat now.time.second.toNat
      now.time.nanosecond.toNat 0
  match time? with
  | some time => return time
  | none => throw (.userError "the clock stands outside the calendar")

end DexIndex.Main

open DexIndex in
def main : IO UInt32 := do
  let env ← Main.environment
  match ← Service.run env (fun _ => .networkUnreachable) Main.openFile Main.clock with
  | .ok summary =>
    if Summary.isShown env then IO.println s!"Shutting down indexer {summary.toText}"
    return 0
  | .error e =>
    IO.eprintln e.report
    return e.exitCode.toUInt32
