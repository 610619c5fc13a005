import DexIndex.Store.Basic

/-!
# Owners of trading accounts

A trading account belongs to one trader for all its life, so an owner is recorded once: the first
record stays, and later ones change nothing. Owners are stored in rows and kept in a cache that is
asked first. Each operation is made of steps that others may run between: asking the cache, reading
the store, and recording in the cache.
-/

namespace DexIndex

/-- The owners known so far. -/
structure OwnerCache where
  owners : List (PublicKey × PublicKey)

namespace OwnerCache

def empty : OwnerCache := ⟨[]⟩

def find? (c : OwnerCache) (account : PublicKey) : Option PublicKey := c.owners.lookup account

def size (c : OwnerCache) : Nat := c.owners.length

/-- Records an owner unless there is one, and gives the owner recorded then. -/
def record (c : OwnerCache) (account trader : PublicKey) : PublicKey × OwnerCache :=
  match c.find? account with
  | some owner => (owner, c)
  | none => (trader, ⟨c.owners ++ [(account, trader)]⟩)

/-- Records an owner unless there is one, and gives the row to be stored if it was recorded. -/
def claim (c : OwnerCache) (account trader : PublicKey) : Option Row × OwnerCache :=
  match c.find? account with
  | some _ => (none, c)
  | none =>
    (some (Ownership.encodeKey account, Ownership.encodeTrader trader),
      ⟨c.owners ++ [(account, trader)]⟩)

/-- Records the owners in stored rows, up to the first row that cannot be read. -/
def recordRows (c : OwnerCache) : List Row → Except CodecError Unit × OwnerCache
  | [] => (.ok (), c)
  | (key, value) :: rows =>
    match Ownership.decodeKey key, Ownership.decodeTrader value with
    | .ok account, .ok trader => (c.record account trader).2.recordRows rows
    | .error e, _ => (.error e, c)
    | .ok _, .error e => (.error e, c)

end OwnerCache

/-- A store together with the cache of the owners in it. -/
structure Ledger where
  store : Store
  cache : OwnerCache

namespace Ledger

/-- A store with nothing in the cache yet. -/
def ofStore (s : Store) : Ledger := ⟨s, .empty⟩

def get (l : Ledger) (key : Bytes) : Except StoreError (Option Bytes) × Ledger :=
  let (r, store) := l.store.get key
  (r, { l with store })

def scan (l : Ledger) (p : Bytes) (limit : Option Nat) :
    Except StoreError (List Row) × Ledger :=
  let (r, store) := l.store.scan p limit
  (r, { l with store })

/-- Reads all stored owners into the cache, and gives the size of the cache. -/
def loadOwners (l : Ledger) : Except StoreError Nat × Ledger :=
  match l.scan Ownership.keyPrefix none with
  | (.error e, l) => (.error e, l)
  | (.ok rows, l) =>
    match l.cache.recordRows rows with
    | (.error e, cache) => (.error (.corrupt (.undecodable e)), { l with cache })
    | (.ok (), cache) => (.ok cache.size, { l with cache })

/-- The owner of an account. An owner found in the store is recorded in the cache. -/
def trader? (l : Ledger) (account : PublicKey) :
    Except StoreError (Option PublicKey) × Ledger :=
  match l.cache.find? account with
  | some trader => (.ok (some trader), l)
  | none =>
    match l.get (Ownership.encodeKey account) with
    | (.error e, l) => (.error e, l)
    | (.ok none, l) => (.ok none, l)
    | (.ok (some value), l) =>
      match Ownership.decodeTrader value with
      | .error e => (.error (.corrupt (.undecodable e)), l)
      | .ok trader =>
        let (owner, cache) := l.cache.record account trader
        (.ok (some owner), { l with cache })

/-- Records the owner of an account that has none; gives the row to be stored then. -/
def claim (l : Ledger) (o : Ownership) : Except StoreError (Option Row) × Ledger :=
  match l.trader? o.account with
  | (.error e, l) => (.error e, l)
  | (.ok (some _), l) => (.ok none, l)
  | (.ok none, l) =>
    let (row, cache) := l.cache.claim o.account o.trader
    (.ok row, { l with cache })

end Ledger

end DexIndex
