/-!
# Words as bytes

Byte strings are lists of bytes. A number is written in a fixed number of bytes, in either byte
order, and read back as the base-256 value of the bytes. `Reader` is a reader that takes a prefix
of a byte string and leaves the rest; a field is read by the reader of its width.
-/

namespace DexIndex

abbrev Bytes := List UInt8

namespace Bytes

/-- The low `w` base-256 digits of `n`, least significant first. -/
def littleEndian : Nat → Nat → Bytes
  | 0, _ => []
  | w + 1, n => UInt8.ofNat n :: littleEndian w (n / 256)

/-- The number with the given base-256 digits, least significant first. -/
def valueLE : Bytes → Nat
  | [] => 0
  | b :: r => b.toNat + 256 * valueLE r

/-- The low `w` base-256 digits of `n`, most significant first. -/
def bigEndian (w n : Nat) : Bytes := (littleEndian w n).reverse

/-- The number with the given base-256 digits, most significant first. -/
def valueBE (bs : Bytes) : Nat := valueLE bs.reverse

@[simp] theorem length_littleEndian (w n : Nat) : (littleEndian w n).length = w := by
  induction w generalizing n with
  | zero => rfl
  | succ w ih => simp [littleEndian, ih]

@[simp] theorem length_bigEndian (w n : Nat) : (bigEndian w n).length = w := by
  simp [bigEndian]

theorem valueLE_littleEndian (w n : Nat) : valueLE (littleEndian w n) = n % Nat.pow 256 w := by
  induction w generalizing n with
  | zero => exact (Nat.mod_one n).symm
  | succ w ih =>
    have hp : Nat.pow 256 (w + 1) = 256 * Nat.pow 256 w := Nat.mul_comm ..
    rw [littleEndian, valueLE, ih, hp, Nat.mod_mul]
    simp

theorem littleEndian_valueLE (bs : Bytes) : littleEndian bs.length (valueLE bs) = bs := by
  induction bs with
  | nil => rfl
  | cons b r ih =>
    have hb : b.toNat < 256 := b.toNat_lt
    rw [List.length_cons, valueLE, littleEndian]
    congr 1
    · apply UInt8.toNat_inj.mp
      rw [UInt8.toNat_ofNat']
      omega
    · rw [show (b.toNat + 256 * valueLE r) / 256 = valueLE r by omega, ih]

theorem valueLE_lt (bs : Bytes) : valueLE bs < Nat.pow 256 bs.length := by
  induction bs with
  | nil => exact Nat.zero_lt_one
  | cons b r ih =>
    have hb : b.toNat < 256 := b.toNat_lt
    have hp : Nat.pow 256 (r.length + 1) = Nat.pow 256 r.length * 256 := rfl
    rw [valueLE, List.length_cons, hp]
    omega

theorem valueBE_bigEndian (w n : Nat) : valueBE (bigEndian w n) = n % Nat.pow 256 w := by
  simp [valueBE, bigEndian, valueLE_littleEndian]

theorem bigEndian_valueBE (bs : Bytes) : bigEndian bs.length (valueBE bs) = bs := by
  rw [bigEndian, valueBE, ← List.length_reverse, littleEndian_valueLE, List.reverse_reverse]

/-- The eight bytes of a word, least significant first. -/
def ofWord (n : UInt64) : Bytes := littleEndian 8 n.toNat

/-- The eight bytes of a word, most significant first: byte order is the order of the words. -/
def ofWordBE (n : UInt64) : Bytes := bigEndian 8 n.toNat

@[simp] theorem length_ofWord (n : UInt64) : (ofWord n).length = 8 := by simp [ofWord]

@[simp] theorem length_ofWordBE (n : UInt64) : (ofWordBE n).length = 8 := by simp [ofWordBE]

end Bytes

/-- Takes a prefix of a byte string, or fails, and leaves the rest. -/
abbrev Reader (α : Type) := StateT Bytes Option α

namespace Reader

def take (n : Nat) : Reader Bytes := fun bs =>
  if n ≤ bs.length then some (bs.take n, bs.drop n) else none

def skip (n : Nat) : Reader Unit := fun bs =>
  if n ≤ bs.length then some ((), bs.drop n) else none

def byte : Reader UInt8
  | [] => none
  | b :: r => some (b, r)

def word16 : Reader UInt16 := do return UInt16.ofNat (Bytes.valueLE (← take 2))

def word32 : Reader UInt32 := do return UInt32.ofNat (Bytes.valueLE (← take 4))

def word64 : Reader UInt64 := do return UInt64.ofNat (Bytes.valueLE (← take 8))

/-- A word written most significant byte first. -/
def word64BE : Reader UInt64 := do return UInt64.ofNat (Bytes.valueBE (← take 8))

/-- The value read from the front of `bs`, whatever follows it. -/
def eval {α : Type} (r : Reader α) (bs : Bytes) : Option α := (r bs).map (·.1)

theorem take_append {n : Nat} {bs : Bytes} (rest : Bytes) (h : bs.length = n) :
    take n (bs ++ rest) = some (bs, rest) := by
  subst h
  simp [take]

@[simp] theorem byte_cons (b : UInt8) (r : Bytes) : byte (b :: r) = some (b, r) := rfl

@[simp] theorem word64_append (n : UInt64) (rest : Bytes) :
    word64 (Bytes.ofWord n ++ rest) = some (n, rest) := by
  have ht := take_append rest (Bytes.length_ofWord n)
  have hv : Bytes.valueLE (Bytes.ofWord n) = n.toNat := by
    rw [Bytes.ofWord, Bytes.valueLE_littleEndian]
    exact Nat.mod_eq_of_lt n.toNat_lt
  change (take 8 (Bytes.ofWord n ++ rest)).bind
    (fun p => some (UInt64.ofNat (Bytes.valueLE p.1), p.2)) = _
  rw [ht, Option.bind_some, hv, UInt64.ofNat_toNat]

@[simp] theorem word64BE_append (n : UInt64) (rest : Bytes) :
    word64BE (Bytes.ofWordBE n ++ rest) = some (n, rest) := by
  have ht := take_append rest (Bytes.length_ofWordBE n)
  have hv : Bytes.valueBE (Bytes.ofWordBE n) = n.toNat := by
    rw [Bytes.ofWordBE, Bytes.valueBE_bigEndian]
    exact Nat.mod_eq_of_lt n.toNat_lt
  change (take 8 (Bytes.ofWordBE n ++ rest)).bind
    (fun p => some (UInt64.ofNat (Bytes.valueBE p.1), p.2)) = _
  rw [ht, Option.bind_some, hv, UInt64.ofNat_toNat]

end Reader

end DexIndex
