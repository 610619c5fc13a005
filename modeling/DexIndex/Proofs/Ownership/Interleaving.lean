import DexIndex.Proofs.Writer.Rows
import Mathlib.Logic.Function.Iterate

/-!
# Calls on a shared ledger

Looking up, claiming and loading owners asks the cache, reads the store and records, one step at a
time. The steps of any number of calls run in any order here, and rows are written in between: the
row of an owner only if a claim gave it or the table has it. Where the steps of a call follow each
other, they are the call as it is (`SharedLedger.run_lookUp`, `run_claim`, `run_load`).
-/

namespace DexIndex

/-! ### The steps of a call -/

/-- How far looking up the owner of an account has come. -/
inductive Lookup
  | due
  /-- The cache did not have the account. -/
  | missed
  /-- The table has this owner. -/
  | stored (trader : PublicKey)

/-- One step of looking up an owner: what is left to do, or the answer. -/
def Lookup.step (account : PublicKey) (l : Ledger) :
    Lookup → (Lookup ⊕ Except StoreError (Option PublicKey)) × Ledger
  | due =>
    match l.cache.find? account with
    | some trader => (.inr (.ok (some trader)), l)
    | none => (.inl missed, l)
  | missed =>
    match l.get (Ownership.encodeKey account) with
    | (.error e, l) => (.inr (.error e), l)
    | (.ok none, l) => (.inr (.ok none), l)
    | (.ok (some value), l) =>
      match Ownership.decodeTrader value with
      | .error e => (.inr (.error (.corrupt (.undecodable e))), l)
      | .ok trader => (.inl (stored trader), l)
  | stored trader =>
    (.inr (.ok (some (l.cache.record account trader).1)),
      { l with cache := (l.cache.record account trader).2 })

inductive LedgerRequest
  | trader (account : PublicKey)
  | claim (o : Ownership)
  | load

/-- What is left to do of a call. -/
inductive LedgerCall
  | lookUp (account : PublicKey) (stage : Lookup)
  | claim (o : Ownership) (stage : Lookup)
  /-- Neither the cache nor the table had an owner. -/
  | insert (o : Ownership)
  | load
  /-- The table had these rows of owners. -/
  | record (rows : List Row)

def LedgerRequest.start : LedgerRequest → LedgerCall
  | trader account => .lookUp account .due
  | claim o => .claim o .due
  | load => .load

inductive LedgerReply
  | trader (account : PublicKey) (answer : Except StoreError (Option PublicKey))
  | claimed (o : Ownership) (answer : Except StoreError (Option Row))
  | loaded (answer : Except StoreError Nat)
deriving DecidableEq

namespace LedgerReply

def row? : LedgerReply → Option Row
  | claimed _ (.ok row) => row
  | _ => none

def granted? : LedgerReply → Option Ownership
  | claimed o (.ok (some _)) => some o
  | _ => none

end LedgerReply

namespace LedgerCall

def step (l : Ledger) : LedgerCall → (LedgerCall ⊕ LedgerReply) × Ledger
  | lookUp account stage =>
    match stage.step account l with
    | (.inl stage, l) => (.inl (lookUp account stage), l)
    | (.inr answer, l) => (.inr (.trader account answer), l)
  | claim o stage =>
    match stage.step o.account l with
    | (.inl stage, l) => (.inl (claim o stage), l)
    | (.inr (.error e), l) => (.inr (.claimed o (.error e)), l)
    | (.inr (.ok (some _)), l) => (.inr (.claimed o (.ok none)), l)
    | (.inr (.ok none), l) => (.inl (insert o), l)
  | insert o =>
    (.inr (.claimed o (.ok (l.cache.claim o.account o.trader).1)),
      { l with cache := (l.cache.claim o.account o.trader).2 })
  | load =>
    match l.scan Ownership.keyPrefix none with
    | (.error e, l) => (.inr (.loaded (.error e)), l)
    | (.ok rows, l) => (.inl (record rows), l)
  | record rows =>
    match l.cache.recordRows rows with
    | (.error e, cache) => (.inr (.loaded (.error (.corrupt (.undecodable e)))), { l with cache })
    | (.ok (), cache) => (.inr (.loaded (.ok cache.size)), { l with cache })

def proceed : (LedgerCall ⊕ LedgerReply) × Ledger → (LedgerCall ⊕ LedgerReply) × Ledger
  | (.inl call, l) => call.step l
  | (.inr reply, l) => (.inr reply, l)

/-- What a call answers if reading the store, which is its next step, ends in an error. -/
def failed? (e : StoreError) : LedgerCall → Option LedgerReply
  | lookUp account .missed => some (.trader account (.error e))
  | claim o .missed => some (.claimed o (.error e))
  | load => some (.loaded (.error e))
  | _ => none

/-- Where reading the store ends in an error, the call ends with it, and nothing is recorded. -/
theorem step_failed {l : Ledger} {call : LedgerCall} {e : StoreError} {reply : LedgerReply}
    (hread : l.store.reads.head? = some (some e)) (hfailed : call.failed? e = some reply) :
    ∃ s, call.step l = (.inr reply, { l with store := s }) := by
  have hget (key : Bytes) :
      l.get key = (.error e, { l with store := { l.store with reads := l.store.reads.tail } }) := by
    simp [Ledger.get, Store.get, Store.read, hread]
  have hscan (p : Bytes) (limit : Option Nat) : l.scan p limit =
      (.error e, { l with store := { l.store with reads := l.store.reads.tail } }) := by
    simp [Ledger.scan, Store.scan, Store.read, hread]
  refine ⟨{ l.store with reads := l.store.reads.tail }, ?_⟩
  rcases call with ⟨account, _ | _ | trader⟩ | ⟨o, _ | _ | trader⟩ | o | _ | rows
  · cases hfailed
  · obtain rfl := Option.some.inj hfailed
    simp only [step, Lookup.step, hget]
  · cases hfailed
  · cases hfailed
  · obtain rfl := Option.some.inj hfailed
    simp only [step, Lookup.step, hget]
  · cases hfailed
  · cases hfailed
  · obtain rfl := Option.some.inj hfailed
    simp only [step, hscan]
  · cases hfailed

end LedgerCall

/-! ### The system -/

structure SharedLedger where
  ledger : Ledger
  /-- The calls that are under way, by number. -/
  calls : Nat → Option LedgerCall
  /-- The answers given so far, oldest first. -/
  replies : List LedgerReply

namespace SharedLedger

inductive Action
  /-- Begins a call; the one that is under way under its number is given up. -/
  | call (id : Nat) (request : LedgerRequest)
  | advance (id : Nat)
  /-- Settles what the next accesses to the store run into. -/
  | meet (reads : List (Option StoreError)) (writes : List WriteOutcome)
  | write (timeoutMs : Nat) (batch : List Row)

/-- A store without calls, and nothing in the cache. -/
def start (s : Store) : SharedLedger := ⟨.ofStore s, fun _ => none, []⟩

/-- The ownerships that claims recorded, oldest first. -/
def granted (x : SharedLedger) : List Ownership := x.replies.filterMap LedgerReply.granted?

def mayWrite (x : SharedLedger) (row : Row) : Bool :=
  !Ownership.keyPrefix.isPrefixOf row.1 || x.replies.any (·.row? == some row) ||
    x.ledger.store.table.get? row.1 == some row.2

def written (x : SharedLedger) (timeoutMs : Nat) (batch : List Row) : Store :=
  (x.ledger.store.attempt timeoutMs batch).2

def after (x : SharedLedger) (id : Nat) : (LedgerCall ⊕ LedgerReply) × Ledger → SharedLedger
  | (.inl call, ledger) => ⟨ledger, Function.update x.calls id (some call), x.replies⟩
  | (.inr reply, ledger) => ⟨ledger, Function.update x.calls id none, x.replies ++ [reply]⟩

def step (x : SharedLedger) : Action → SharedLedger
  | .call id request => { x with calls := Function.update x.calls id (some request.start) }
  | .advance id =>
    match x.calls id with
    | some call => x.after id (call.step x.ledger)
    | none => x
  | .meet reads writes =>
    { x with ledger := { x.ledger with store := { x.ledger.store with reads, writes } } }
  | .write timeoutMs batch =>
    if batch.all x.mayWrite then
      { x with ledger := { x.ledger with store := x.written timeoutMs batch } }
    else x

def run (x : SharedLedger) (actions : List Action) : SharedLedger := actions.foldl step x

theorem step_advance {x : SharedLedger} {id : Nat} {call : LedgerCall}
    (h : x.calls id = some call) : x.step (.advance id) = x.after id (call.step x.ledger) := by
  rw [step, h]

theorem replies_prefix_step (x : SharedLedger) (action : Action) :
    x.replies <+: (x.step action).replies := by
  cases action with
  | call | meet => exact List.prefix_refl _
  | advance id =>
    rw [step]
    split
    · next call _ =>
      rcases call.step x.ledger with ⟨call' | reply, l⟩
      · exact List.prefix_refl _
      · exact List.prefix_append _ _
    · exact List.prefix_refl _
  | write timeoutMs batch =>
    rw [step]
    split <;> exact List.prefix_refl _

theorem replies_prefix_run (x : SharedLedger) (actions : List Action) :
    x.replies <+: (x.run actions).replies := by
  induction actions generalizing x with
  | nil => exact List.prefix_refl _
  | cons action rest ih => exact (x.replies_prefix_step action).trans (ih (x.step action))

/-! ### Reads that fail -/

theorem advance_failed {x : SharedLedger} {id : Nat} {call : LedgerCall} {e : StoreError}
    {reply : LedgerReply} (hcall : x.calls id = some call)
    (hread : x.ledger.store.reads.head? = some (some e)) (hfailed : call.failed? e = some reply) :
    (x.step (.advance id)).ledger.cache = x.ledger.cache ∧
      (x.step (.advance id)).replies = x.replies ++ [reply] := by
  obtain ⟨s, hstep⟩ := LedgerCall.step_failed hread hfailed
  rw [step_advance hcall, hstep]
  exact ⟨rfl, rfl⟩

end SharedLedger

/-! ### Calls with nothing in between -/

namespace LedgerCall

theorem proceed_lookUp (account : PublicKey) (l : Ledger) :
    proceed^[3] (.inl (.lookUp account .due), l) =
      (.inr (.trader account (l.trader? account).1), (l.trader? account).2) := by
  simp only [Function.iterate_succ, Function.iterate_zero, Function.comp, id, Ledger.trader?]
  cases hfind : l.cache.find? account with
  | some trader => simp [proceed, step, Lookup.step, hfind]
  | none =>
    rcases hget : l.get (Ownership.encodeKey account) with ⟨_ | _ | value, l'⟩
    · simp [proceed, step, Lookup.step, hfind, hget]
    · simp [proceed, step, Lookup.step, hfind, hget]
    · cases hdecode : Ownership.decodeTrader value <;>
        simp [proceed, step, Lookup.step, hfind, hget, hdecode]

theorem proceed_claim (o : Ownership) (l : Ledger) :
    proceed^[4] (.inl (.claim o .due), l) =
      (.inr (.claimed o (l.claim o).1), (l.claim o).2) := by
  simp only [Function.iterate_succ, Function.iterate_zero, Function.comp, id, Ledger.claim,
    Ledger.trader?]
  cases hfind : l.cache.find? o.account with
  | some trader => simp [proceed, step, Lookup.step, hfind]
  | none =>
    rcases hget : l.get (Ownership.encodeKey o.account) with ⟨_ | _ | value, l'⟩
    · simp [proceed, step, Lookup.step, hfind, hget]
    · simp [proceed, step, Lookup.step, hfind, hget]
    · cases hdecode : Ownership.decodeTrader value <;>
        simp [proceed, step, Lookup.step, hfind, hget, hdecode]

theorem proceed_load (l : Ledger) :
    proceed^[2] (.inl .load, l) = (.inr (.loaded l.loadOwners.1), l.loadOwners.2) := by
  simp only [Function.iterate_succ, Function.iterate_zero, Function.comp, id, Ledger.loadOwners]
  rcases hscan : l.scan Ownership.keyPrefix none with ⟨_ | rows, l'⟩
  · simp [proceed, step, hscan]
  · rcases hrows : l'.cache.recordRows rows with ⟨_ | _, cache⟩ <;>
      simp [proceed, step, hscan, hrows]

end LedgerCall

namespace SharedLedger
variable (x : SharedLedger) (id : Nat)

theorem step_after (r : (LedgerCall ⊕ LedgerReply) × Ledger) :
    (x.after id r).step (.advance id) = x.after id (LedgerCall.proceed r) := by
  obtain ⟨call | reply, l⟩ := r
  · rcases hstep : call.step l with ⟨call' | reply, l'⟩ <;>
      simp [step, after, LedgerCall.proceed, hstep]
  · simp [step, after, LedgerCall.proceed]

theorem run_after (r : (LedgerCall ⊕ LedgerReply) × Ledger) (n : Nat) :
    (x.after id r).run (List.replicate n (.advance id)) =
      x.after id (LedgerCall.proceed^[n] r) := by
  induction n generalizing r with
  | zero => rfl
  | succ n ih =>
    rw [List.replicate_succ, run, List.foldl_cons, step_after, Function.iterate_succ_apply]
    exact ih _

/-- The steps of a lookup, with nothing in between, are one call of `Ledger.trader?`. -/
theorem run_lookUp (account : PublicKey) :
    x.run (.call id (.trader account) :: List.replicate 3 (.advance id)) =
      x.after id (.inr (.trader account (x.ledger.trader? account).1),
        (x.ledger.trader? account).2) := by
  rw [← LedgerCall.proceed_lookUp, ← run_after]
  rfl

theorem run_claim (o : Ownership) :
    x.run (.call id (.claim o) :: List.replicate 4 (.advance id)) =
      x.after id (.inr (.claimed o (x.ledger.claim o).1), (x.ledger.claim o).2) := by
  rw [← LedgerCall.proceed_claim, ← run_after]
  rfl

theorem run_load :
    x.run (.call id .load :: List.replicate 2 (.advance id)) =
      x.after id (.inr (.loaded x.ledger.loadOwners.1), x.ledger.loadOwners.2) := by
  rw [← LedgerCall.proceed_load, ← run_after]
  rfl

end SharedLedger

end DexIndex
