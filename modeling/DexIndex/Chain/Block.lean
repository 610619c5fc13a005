import DexIndex.Event.Json

/-!
# Blocks

Decoded blocks: their transactions, the instructions invoked by them with the accounts that each
changed, and the flags of accounts that the message header gives by position.
-/

namespace DexIndex

structure AccountChange where
  key : PublicKey
  before : Bytes
  after : Bytes
deriving DecidableEq

/-- An instruction as it was invoked; the program and the accounts are positions among the keys of
the transaction. -/
structure Invocation where
  program : UInt8
  accounts : List UInt8
  data : Bytes
  changes : List AccountChange
deriving DecidableEq

/-- How many of the keys signed, and how many of the signing and of the other keys are read-only. -/
structure MessageHeader where
  signatures : UInt8
  readonlySigned : UInt8
  readonlyUnsigned : UInt8
deriving DecidableEq

structure Transaction where
  id : String
  index : UInt64
  failed : Bool
  header : MessageHeader
  keys : List PublicKey
  invocations : List Invocation
deriving DecidableEq

structure Block where
  number : UInt64
  id : String
  previousId : String
  timestamp : Timestamp
  transactions : List Transaction
deriving DecidableEq

structure AccountMeta where
  key : PublicKey
  signer : Bool
  writable : Bool
deriving DecidableEq

/-- The change recorded for an account; the first one counts. -/
def Invocation.change? (i : Invocation) (key : PublicKey) : Option AccountChange :=
  i.changes.find? (·.key == key)

namespace Transaction

/-- Signing keys stand first. -/
def isSigner (t : Transaction) (i : Nat) : Bool := i < t.header.signatures.toNat

/-- Among the signing keys, as among the others, the read-only ones stand last. -/
def isWritable (t : Transaction) (i : Nat) : Bool :=
  let signers := t.header.signatures.toNat
  if i < signers then i < signers - t.header.readonlySigned.toNat
  else i - signers < t.keys.length - signers - t.header.readonlyUnsigned.toNat

def account? (t : Transaction) (i : Nat) : Option AccountMeta :=
  (t.keys[i]?).map fun key => { key, signer := t.isSigner i, writable := t.isWritable i }

end Transaction

/-! ### JSON -/

open Json

namespace Json

def ofBytes (bs : Bytes) : Json := .array (bs.map fun b => .ofNat b.toNat)

def bytes? : Json → Option Bytes := listOf? byte?

end Json

def AccountChange.toJson (c : AccountChange) : Json :=
  .ofFields [("pubkey", c.key.toJson), ("prev_data", .ofBytes c.before),
    ("new_data", .ofBytes c.after)]

def AccountChange.ofJson? (j : Json) : Option AccountChange := do
  match ← j.record? ["pubkey", "prev_data", "new_data"] with
  | [key, before, after] =>
    return {
      key := ← required? PublicKey.ofJson? key
      before := ← optional? bytes? [] before
      after := ← required? bytes? after }
  | _ => none

def Invocation.toJson (i : Invocation) : Json :=
  .ofFields [("program_id_index", .ofNat i.program.toNat), ("accounts", .ofBytes i.accounts),
    ("data", .ofBytes i.data), ("account_changes", .array (i.changes.map AccountChange.toJson))]

def Invocation.ofJson? (j : Json) : Option Invocation := do
  match ← j.record? ["program_id_index", "accounts", "data", "account_changes"] with
  | [program, accounts, data, changes] =>
    return {
      program := ← required? byte? program
      accounts := ← required? bytes? accounts
      data := ← required? bytes? data
      changes := ← optional? (listOf? AccountChange.ofJson?) [] changes }
  | _ => none

def MessageHeader.toJson (h : MessageHeader) : Json :=
  .ofFields [("num_required_signatures", .ofNat h.signatures.toNat),
    ("num_readonly_signed_accounts", .ofNat h.readonlySigned.toNat),
    ("num_readonly_unsigned_accounts", .ofNat h.readonlyUnsigned.toNat)]

def MessageHeader.ofJson? (j : Json) : Option MessageHeader := do
  match ← j.record? ["num_required_signatures", "num_readonly_signed_accounts",
      "num_readonly_unsigned_accounts"] with
  | [signatures, signed, unsigned] =>
    return {
      signatures := ← required? byte? signatures
      readonlySigned := ← required? byte? signed
      readonlyUnsigned := ← required? byte? unsigned }
  | _ => none

def Transaction.toJson (t : Transaction) : Json :=
  .ofFields [("id", .ofText t.id), ("index", .ofWord t.index), ("failed", .bool t.failed),
    ("header", t.header.toJson), ("account_keys", .array (t.keys.map PublicKey.toJson)),
    ("instructions", .array (t.invocations.map Invocation.toJson))]

def Transaction.ofJson? (j : Json) : Option Transaction := do
  match ← j.record? ["id", "index", "failed", "header", "account_keys", "instructions"] with
  | [id, index, failed, header, keys, instructions] =>
    return {
      id := ← required? text? id
      index := ← required? word64? index
      failed := ← optional? bool? false failed
      header := ← required? MessageHeader.ofJson? header
      keys := ← required? (listOf? PublicKey.ofJson?) keys
      invocations := ← required? (listOf? Invocation.ofJson?) instructions }
  | _ => none

namespace Block

def toJson (b : Block) : Json :=
  .ofFields [("number", .ofWord b.number), ("id", .ofText b.id),
    ("previous_id", .ofText b.previousId), ("timestamp", b.timestamp.toJson),
    ("transactions", .array (b.transactions.map Transaction.toJson))]

def ofJson? (j : Json) : Option Block := do
  match ← j.record? ["number", "id", "previous_id", "timestamp", "transactions"] with
  | [number, id, previous, timestamp, transactions] =>
    return {
      number := ← required? word64? number
      id := ← required? text? id
      previousId := ← optional? text? "" previous
      timestamp := ← required? Timestamp.ofJson? timestamp
      transactions := ← optional? (listOf? Transaction.ofJson?) [] transactions }
  | _ => none

end Block

end DexIndex
