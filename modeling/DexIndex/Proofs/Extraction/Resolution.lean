import DexIndex.Extraction

/-!
# The accounts of an instruction

An instruction is handled if its data is supported and every account of its layout is among the keys
of the transaction (`Extraction.Supported`); then its accounts are resolved
(`Extraction.supported_iff`). Of its queues only those count that it may write
(`Extraction.WritableQueue`), and of these the first change recorded (`Extraction.Writes`).
-/

namespace DexIndex

def AccountLayout.positions (l : AccountLayout) : List Nat :=
  l.market :: (l.openOrders.toList ++ l.requestQueue.toList ++ l.eventQueue.toList ++ l.owner.toList)

def AccountLayout.queue? (l : AccountLayout) : QueueRole → Option Nat
  | .requestQueue => l.requestQueue
  | .eventQueue => l.eventQueue

def Accounts.queue? (a : Accounts) : QueueRole → Option AccountMeta
  | .requestQueue => a.requestQueue
  | .eventQueue => a.eventQueue

namespace Extraction

/-- The account at a position of the instruction is one of the keys. -/
def HasAccount (trx : Transaction) (inv : Invocation) (position : Nat) : Prop :=
  ∃ k, inv.accounts[position]? = some k ∧ k.toNat < trx.keys.length

/-- An instruction that is not passed over. -/
structure Supported (trx : Transaction) (inv : Invocation) (i : Instruction) : Prop where
  decoded : Instruction.decode inv.data = .ok i
  accounts : ∀ position ∈ i.accounts.positions, HasAccount trx inv position

/-- The key of a queue account that the header lets the instruction write. -/
def WritableQueue (trx : Transaction) (inv : Invocation) (i : Instruction) (role : QueueRole)
    (key : PublicKey) : Prop :=
  ∃ position k, i.accounts.queue? role = some position ∧ inv.accounts[position]? = some k ∧
    trx.keys[k.toNat]? = some key ∧ trx.isWritable k.toNat = true

/-- The first change that is recorded for a queue account which the instruction may write. -/
def Writes (trx : Transaction) (inv : Invocation) (i : Instruction) (role : QueueRole)
    (change : AccountChange) : Prop :=
  ∃ key, WritableQueue trx inv i role key ∧ inv.change? key = some change

variable {trx : Transaction} {inv : Invocation} {i : Instruction} {accounts : Accounts}
  {role : QueueRole} {change : AccountChange}

theorem at?_eq_some_iff {position : Nat} {m : AccountMeta} :
    Accounts.at? trx inv position = some m ↔
      ∃ k key, inv.accounts[position]? = some k ∧ trx.keys[k.toNat]? = some key ∧
        ⟨key, trx.isSigner k.toNat, trx.isWritable k.toNat⟩ = m := by
  constructor
  · intro h
    obtain ⟨k, hk, h⟩ := Option.bind_eq_some_iff.mp h
    obtain ⟨key, hkey, rfl⟩ := Option.map_eq_some_iff.mp h
    exact ⟨k, key, hk, hkey, rfl⟩
  · rintro ⟨k, key, hk, hkey, rfl⟩
    exact Option.bind_eq_some_iff.mpr ⟨k, hk, Option.map_eq_some_iff.mpr ⟨key, hkey, rfl⟩⟩

theorem hasAccount_iff (position : Nat) :
    HasAccount trx inv position ↔ ∃ m, Accounts.at? trx inv position = some m := by
  simp only [at?_eq_some_iff, HasAccount]
  constructor
  · rintro ⟨k, hk, hlt⟩
    exact ⟨_, k, _, hk, List.getElem?_eq_getElem hlt, rfl⟩
  · rintro ⟨_, k, key, hk, hkey, _⟩
    exact ⟨k, hk, (List.getElem?_eq_some_iff.mp hkey).1⟩

theorem exists_atAny?_iff {position : Option Nat} :
    (∃ m, Accounts.atAny? trx inv position = some m) ↔
      ∀ p ∈ position.toList, HasAccount trx inv p := by
  cases position with
  | none => simp [Accounts.atAny?]
  | some p =>
    simp only [Accounts.atAny?, Option.map_eq_some_iff, Option.toList_some, List.mem_singleton,
      forall_eq, hasAccount_iff]
    exact ⟨fun ⟨_, m, hm, _⟩ => ⟨m, hm⟩, fun ⟨m, hm⟩ => ⟨some m, m, hm, rfl⟩⟩

theorem resolve?_eq_some_iff {layout : AccountLayout} :
    Accounts.resolve? trx inv layout = some accounts ↔
      Accounts.at? trx inv layout.market = some accounts.market ∧
      Accounts.atAny? trx inv layout.openOrders = some accounts.openOrders ∧
      Accounts.atAny? trx inv layout.requestQueue = some accounts.requestQueue ∧
      Accounts.atAny? trx inv layout.eventQueue = some accounts.eventQueue ∧
      Accounts.atAny? trx inv layout.owner = some accounts.owner := by
  obtain ⟨market, openOrders, requestQueue, eventQueue, owner⟩ := accounts
  simp only [Accounts.resolve?, Option.bind_eq_bind, Option.bind_eq_some_iff, Option.pure_def,
    Option.some.injEq, Accounts.mk.injEq]
  constructor
  · rintro ⟨_, hmarket, _, hopenOrders, _, hrequest, _, hevent, _, howner, rfl, rfl, rfl, rfl, rfl⟩
    exact ⟨hmarket, hopenOrders, hrequest, hevent, howner⟩
  · rintro ⟨hmarket, hopenOrders, hrequest, hevent, howner⟩
    exact ⟨_, hmarket, _, hopenOrders, _, hrequest, _, hevent, _, howner, rfl, rfl, rfl, rfl, rfl⟩

theorem exists_resolve?_iff {layout : AccountLayout} :
    (∃ accounts, Accounts.resolve? trx inv layout = some accounts) ↔
      ∀ position ∈ layout.positions, HasAccount trx inv position := by
  simp only [AccountLayout.positions, List.forall_mem_cons, List.forall_mem_append,
    hasAccount_iff layout.market, ← exists_atAny?_iff, resolve?_eq_some_iff]
  constructor
  · rintro ⟨accounts, hmarket, hopenOrders, hrequest, hevent, howner⟩
    exact ⟨⟨_, hmarket⟩, ⟨⟨⟨_, hopenOrders⟩, _, hrequest⟩, _, hevent⟩, _, howner⟩
  · rintro ⟨⟨_, hmarket⟩, ⟨⟨⟨_, hopenOrders⟩, _, hrequest⟩, _, hevent⟩, _, howner⟩
    exact ⟨⟨_, _, _, _, _⟩, hmarket, hopenOrders, hrequest, hevent, howner⟩

theorem supported_iff :
    Supported trx inv i ↔
      Instruction.decode inv.data = .ok i ∧
        ∃ accounts, Accounts.resolve? trx inv i.accounts = some accounts := by
  rw [exists_resolve?_iff]
  exact ⟨fun h => ⟨h.decoded, h.accounts⟩, fun h => ⟨h.1, h.2⟩⟩

theorem Supported.unique {i' : Instruction} (h : Supported trx inv i) (h' : Supported trx inv i') :
    i = i' := Except.ok.inj (h.decoded.symm.trans h'.decoded)

section Resolved
variable (h : Accounts.resolve? trx inv i.accounts = some accounts)
include h

theorem atAny?_queue? (role : QueueRole) :
    Accounts.atAny? trx inv (i.accounts.queue? role) = some (accounts.queue? role) := by
  obtain ⟨_, _, hrequest, hevent, _⟩ := resolve?_eq_some_iff.mp h
  cases role with
  | requestQueue => exact hrequest
  | eventQueue => exact hevent

theorem writableQueue_iff {key : PublicKey} :
    WritableQueue trx inv i role key ↔
      ∃ m, accounts.queue? role = some m ∧ m.writable = true ∧ m.key = key := by
  have hat := atAny?_queue? h role
  cases hposition : i.accounts.queue? role with
  | none =>
    rw [hposition] at hat
    simp [WritableQueue, hposition, ← Option.some.inj hat]
  | some position =>
    rw [hposition] at hat
    obtain ⟨m, hm, heq⟩ := Option.map_eq_some_iff.mp hat
    obtain ⟨k, key', hk, hkey', rfl⟩ := at?_eq_some_iff.mp hm
    simp [WritableQueue, hposition, ← heq, hk, hkey', and_comm]

theorem queueChange?_eq_some_iff :
    queueChange? inv (accounts.queue? role) = some change ↔ Writes trx inv i role change := by
  simp only [Writes, writableQueue_iff h, queueChange?, Option.bind_eq_bind,
    Option.bind_eq_some_iff]
  constructor
  · rintro ⟨m, hm, hchange⟩
    split at hchange
    · next hwritable => exact ⟨m.key, ⟨m, hm, hwritable, rfl⟩, hchange⟩
    · cases hchange
  · rintro ⟨_, ⟨m, hm, hwritable, rfl⟩, hchange⟩
    exact ⟨m, hm, by rw [if_pos hwritable, hchange]⟩

theorem queueChange?_eq_none_iff :
    queueChange? inv (accounts.queue? role) = none ↔ ∀ change, ¬Writes trx inv i role change := by
  simp only [Option.eq_none_iff_forall_ne_some, ne_eq, queueChange?_eq_some_iff h]

theorem Writes.unique {change' : AccountChange} (hwrites : Writes trx inv i role change)
    (hwrites' : Writes trx inv i role change') : change = change' := by
  rw [← queueChange?_eq_some_iff h] at hwrites hwrites'
  exact Option.some.inj (hwrites.symm.trans hwrites')

end Resolved

end Extraction

end DexIndex
