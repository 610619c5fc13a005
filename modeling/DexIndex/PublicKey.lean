import DexIndex.Bytes.Base58

/-!
# Public keys

A key is 32 bytes, shown in base 58.
-/

namespace DexIndex

structure PublicKey where
  bytes : Bytes
  length_bytes : bytes.length = 32
deriving DecidableEq

namespace PublicKey

def ofBytes? (bs : Bytes) : Option PublicKey :=
  if h : bs.length = 32 then some ⟨bs, h⟩ else none

def toText (k : PublicKey) : String := Base58.encode k.bytes

instance : ToString PublicKey := ⟨toText⟩

def ofText? (s : String) : Option PublicKey := (Base58.decode? s).bind ofBytes?

/-- A text that is not the base 58 form of 32 bytes. -/
structure ParseError where
  text : String
deriving DecidableEq

def ParseError.message (e : ParseError) : String := s!"invalid public key: {e.text}"

def parse (s : String) : Except ParseError PublicKey :=
  match ofText? s with
  | some k => .ok k
  | none => .error ⟨s⟩

def reader : Reader PublicKey := fun bs => do
  let (taken, rest) ← Reader.take 32 bs
  return (← ofBytes? taken, rest)

theorem ext_bytes {a b : PublicKey} (h : a.bytes = b.bytes) : a = b := by
  cases a; cases b; cases h; rfl

@[simp] theorem ofBytes?_bytes (k : PublicKey) : ofBytes? k.bytes = some k := by
  simp [ofBytes?, k.length_bytes]

@[simp] theorem reader_append (k : PublicKey) (rest : Bytes) :
    reader (k.bytes ++ rest) = some (k, rest) := by
  have ht := Reader.take_append rest k.length_bytes
  simp [reader, ht]

end PublicKey

end DexIndex
