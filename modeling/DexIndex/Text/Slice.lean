/-!
# Pieces of texts

Texts cut by positions that count bytes. A position within a character cuts nothing.
-/

namespace DexIndex.Text

/-- How many bytes a text takes. -/
def byteSize : List Char → Nat
  | [] => 0
  | c :: cs => c.utf8Size + byteSize cs

/-- Splits a text after `n` bytes. -/
def splitAt? : Nat → List Char → Option (List Char × List Char)
  | 0, cs => some ([], cs)
  | _ + 1, [] => none
  | n + 1, c :: cs =>
    if c.utf8Size ≤ n + 1 then
      (splitAt? (n + 1 - c.utf8Size) cs).map fun (left, right) => (c :: left, right)
    else none

/-- The piece of a text between two positions. -/
def slice? (start stop : Nat) (cs : List Char) : Option (List Char) := do
  let (_, rest) ← splitAt? start cs
  let (piece, _) ← splitAt? (stop - start) rest
  return piece

end DexIndex.Text
