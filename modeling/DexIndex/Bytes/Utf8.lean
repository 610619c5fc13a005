import DexIndex.Bytes.Word

/-!
# UTF-8

Text as bytes, and where a byte string stops being text: at a maximal ill-formed part, which is
the longest prefix of a character's bytes that is there, or at the end within a character.
-/

namespace DexIndex.Utf8

def encode (s : String) : Bytes := s.toUTF8.data.toList

def decode? (bs : Bytes) : Option String := String.fromUTF8? ⟨bs.toArray⟩

theorem decode?_encode (s : String) : decode? (encode s) = some s := by
  have h : (⟨(encode s).toArray⟩ : ByteArray) = s.toUTF8 := rfl
  unfold decode? String.fromUTF8?
  exact (dif_pos (h ▸ s.isValidUTF8)).trans rfl

theorem eq_encode_of_decode? {bs : Bytes} {s : String} (h : decode? bs = some s) :
    bs = encode s := by
  simp only [decode?, String.fromUTF8?, Option.dite_none_right_eq_some, Option.some.injEq] at h
  obtain ⟨_, rfl⟩ := h
  rfl

theorem decode?_eq_some_iff {bs : Bytes} {s : String} : decode? bs = some s ↔ bs = encode s :=
  ⟨eq_encode_of_decode?, fun h => h ▸ decode?_encode s⟩

/-- Why a byte string is no text: the index of the first byte of the character at fault, and the
length of its ill-formed part if it is not the end that cuts it. -/
inductive Fault
  | illFormed (length index : Nat)
  | incomplete (index : Nat)
deriving DecidableEq, Repr

namespace Fault

def message : Fault → String
  | illFormed n i => s!"invalid utf-8 sequence of {n} bytes from index {i}"
  | incomplete i => s!"incomplete utf-8 byte sequence from index {i}"

end Fault

/-- The ranges in which the bytes after a first byte must lie. -/
def following (b : UInt8) : Option (List (UInt8 × UInt8)) :=
  let tail : UInt8 × UInt8 := (0x80, 0xbf)
  if b < 0x80 then some []
  else if b < 0xc2 then none
  else if b < 0xe0 then some [tail]
  else if b == 0xe0 then some [(0xa0, 0xbf), tail]
  else if b == 0xed then some [(0x80, 0x9f), tail]
  else if b < 0xf0 then some [tail, tail]
  else if b == 0xf0 then some [(0x90, 0xbf), tail, tail]
  else if b < 0xf4 then some [tail, tail, tail]
  else if b == 0xf4 then some [(0x80, 0x8f), tail, tail]
  else none

/-- The first fault of the bytes, where `seen` bytes of a character that starts at `index` have
been read and `due` are the ranges of those still to come. -/
def faultFrom (index seen : Nat) (due : List (UInt8 × UInt8)) : Bytes → Option Fault
  | [] => if due.isEmpty then none else some (.incomplete index)
  | b :: r =>
    match due with
    | [] =>
      match following b with
      | none => some (.illFormed 1 (index + seen))
      | some due => faultFrom (index + seen) 1 due r
    | (low, high) :: due =>
      if low ≤ b ∧ b ≤ high then faultFrom index (seen + 1) due r
      else some (.illFormed seen index)

def fault? (bs : Bytes) : Option Fault := faultFrom 0 0 [] bs

/-- The text of bytes in which each ill-formed part counts as a replacement character, of which
there are at most `fuel`. -/
def mend : Nat → Bytes → String
  | 0, _ => ""
  | fuel + 1, bs =>
    match fault? bs with
    | none => (decode? bs).getD ""
    | some (.illFormed n i) =>
      (decode? (bs.take i)).getD "" ++ "\ufffd" ++ mend fuel (bs.drop (i + n))
    | some (.incomplete i) => (decode? (bs.take i)).getD "" ++ "\ufffd"

/-- A text close to the bytes: ill-formed parts become replacement characters. -/
def decodeLossy (bs : Bytes) : String := mend (bs.length + 1) bs

end DexIndex.Utf8
