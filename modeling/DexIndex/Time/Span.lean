/-!
# Spans of time

The text of a span of whole milliseconds: in seconds from one second on, otherwise in
milliseconds, without trailing zeros; no time is zero nanoseconds.
-/

namespace DexIndex.Span

/-- Three digits after the point without trailing zeros. -/
def decimals (ms : Nat) : String :=
  if ms = 0 then ""
  else if ms % 100 = 0 then s!".{ms / 100}"
  else if ms % 10 = 0 then s!".{ms / 100}{ms / 10 % 10}"
  else s!".{ms / 100}{ms / 10 % 10}{ms % 10}"

def text (ms : Nat) : String :=
  if ms = 0 then "0ns"
  else if ms < 1000 then s!"{ms}ms"
  else s!"{ms / 1000}{decimals (ms % 1000)}s"

end DexIndex.Span
