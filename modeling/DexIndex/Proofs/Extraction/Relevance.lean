import DexIndex.Proofs.Exchange.Idle
import DexIndex.Proofs.Extraction.Faults

/-!
# What the extraction depends on

Blocks with the same number, id and time give the same result if the transactions that did not fail
agree: they name the same keys, invoke the same instructions of configured programs with the same
accounts and data, and what they record first for each queue that the instruction may write differs
at most in bytes that hold nothing (`Block.Agrees`, `Block.extract_eq_of_agrees`). Nothing else
that a block holds has any influence.
-/

namespace DexIndex
open Extraction

/-- Images of a queue account that hold the same entries in the same bytes. -/
def QueueRole.Alike : QueueRole → Bytes → Bytes → Prop
  | .requestQueue => Queue.Alike RequestEntry
  | .eventQueue => Queue.Alike EventEntry

structure AccountChange.Agrees (role : QueueRole) (c c' : AccountChange) : Prop where
  before : role.Alike c.before c'.before
  after : role.Alike c.after c'.after

/-- Instructions at one position of a transaction, of which one stands for the other. What is recorded
for an account other than a queue that the instruction may write is left open, and so is what is
recorded for a queue after its first change. -/
inductive Invocation.Agrees (programs : List PublicKey) (trx : Transaction) (inv inv' : Invocation) :
    Prop
  | foreign : isConfigured programs trx inv = false → isConfigured programs trx inv' = false →
      Agrees programs trx inv inv'
  | configured : inv.program = inv'.program → inv.accounts = inv'.accounts → inv.data = inv'.data →
      (∀ i role key, Supported trx inv i → WritableQueue trx inv i role key →
        Option.Rel (AccountChange.Agrees role) (inv.change? key) (inv'.change? key)) →
      Agrees programs trx inv inv'

structure Transaction.Agrees (programs : List PublicKey) (t t' : Transaction) : Prop where
  id : t.id = t'.id
  index : t.index = t'.index
  header : t.header = t'.header
  keys : t.keys = t'.keys
  invocations : List.Forall₂ (Invocation.Agrees programs t) t.invocations t'.invocations

structure Block.Agrees (programs : List PublicKey) (b b' : Block) : Prop where
  number : b.number = b'.number
  id : b.id = b'.id
  timestamp : b.timestamp = b'.timestamp
  transactions : List.Forall₂ (Transaction.Agrees programs)
    (b.transactions.filter (!·.failed)) (b'.transactions.filter (!·.failed))

/-! ### Instructions -/

namespace Extraction
variable {site : Site} {inv inv' : Invocation} {accounts : Accounts} {i : Instruction}
  {c c' : AccountChange}

theorem images_eq_of_agrees {α : Type} [QueueEntry α] [SlotForm α]
    (hbefore : Queue.Alike α c.before c'.before) (hafter : Queue.Alike α c.after c'.after) :
    c'.images α = c.images α := by
  rw [AccountChange.images, AccountChange.images, hbefore.decodeOptional_eq, hafter.decode_eq]

theorem requestEvents_eq_of_agrees (hkey : c.key = c'.key)
    (h : AccountChange.Agrees .requestQueue c c') :
    requestEvents site accounts i c = requestEvents site accounts i c' := by
  rw [requestEvents_eq, requestEvents_eq, images_eq_of_agrees h.before h.after, hkey]

theorem queueEvents_eq_of_agrees (hkey : c.key = c'.key)
    (h : AccountChange.Agrees .eventQueue c c') :
    queueEvents site accounts i c = queueEvents site accounts i c' := by
  rw [EventQueue.queueEvents_eq, EventQueue.queueEvents_eq, EventQueue.appendedBetween_eq,
    EventQueue.appendedBetween_eq, images_eq_of_agrees h.before h.after, hkey]

theorem key_of_change? {key : PublicKey} (h : inv.change? key = some c) : c.key = key := by
  have hkey := List.find?_some h
  exact eq_of_beq hkey

theorem rel_queueChange? (role : QueueRole)
    (ha : Accounts.resolve? site.trx inv i.accounts = some accounts)
    (h : ∀ key, WritableQueue site.trx inv i role key →
      Option.Rel (AccountChange.Agrees role) (inv.change? key) (inv'.change? key)) :
    Option.Rel (fun c c' => c.key = c'.key ∧ AccountChange.Agrees role c c')
      (queueChange? inv (accounts.queue? role)) (queueChange? inv' (accounts.queue? role)) := by
  cases hm : accounts.queue? role with
  | none => exact .none
  | some m =>
    by_cases hwritable : m.writable = true
    · have hrel := h m.key ((writableQueue_iff ha).mpr ⟨m, hm, hwritable, rfl⟩)
      simp only [queueChange?, Option.bind_eq_bind, Option.bind_some, if_pos hwritable]
      cases hc : inv.change? m.key with
      | none =>
        rw [hc] at hrel
        generalize inv'.change? m.key = y at hrel ⊢
        cases hrel
        exact .none
      | some c =>
        rw [hc] at hrel
        cases hc' : inv'.change? m.key with
        | none =>
          rw [hc'] at hrel
          cases hrel
        | some c' =>
          rw [hc'] at hrel
          cases hrel with
          | some hagrees =>
            exact .some ⟨(key_of_change? hc).trans (key_of_change? hc').symm, hagrees⟩
    · simp only [queueChange?, Option.bind_eq_bind, Option.bind_some, if_neg hwritable]
      exact .none

theorem fromRequests_eq
    (h : Option.Rel (fun c c' => c.key = c'.key ∧ AccountChange.Agrees .requestQueue c c')
      (queueChange? inv accounts.requestQueue) (queueChange? inv' accounts.requestQueue)) :
    fromRequests site inv' accounts i = fromRequests site inv accounts i := by
  rw [fromRequests, fromRequests]
  generalize queueChange? inv accounts.requestQueue = x at h ⊢
  generalize queueChange? inv' accounts.requestQueue = y at h ⊢
  cases h with
  | none => rfl
  | some h => exact (requestEvents_eq_of_agrees h.1 h.2).symm

theorem fromEvents_eq
    (h : Option.Rel (fun c c' => c.key = c'.key ∧ AccountChange.Agrees .eventQueue c c')
      (queueChange? inv accounts.eventQueue) (queueChange? inv' accounts.eventQueue)) :
    fromEvents site inv' accounts i = fromEvents site inv accounts i := by
  rw [fromEvents, fromEvents]
  generalize queueChange? inv accounts.eventQueue = x at h ⊢
  generalize queueChange? inv' accounts.eventQueue = y at h ⊢
  cases h with
  | none => rfl
  | some h => exact (queueEvents_eq_of_agrees h.1 h.2).symm

theorem resolve?_congr {trx : Transaction} {layout : AccountLayout}
    (haccounts : inv.accounts = inv'.accounts) :
    Accounts.resolve? trx inv' layout = Accounts.resolve? trx inv layout := by
  have hat : Accounts.at? trx inv' = Accounts.at? trx inv := by
    funext position
    rw [Accounts.at?, Accounts.at?, haccounts]
  have hatAny : Accounts.atAny? trx inv' = Accounts.atAny? trx inv := by
    funext position
    cases position with
    | none => rfl
    | some position => rw [Accounts.atAny?, Accounts.atAny?, hat]
  rw [Accounts.resolve?, Accounts.resolve?, hat, hatAny]

theorem supported_congr {trx : Transaction} (haccounts : inv.accounts = inv'.accounts)
    (hdata : inv.data = inv'.data) : Supported trx inv i ↔ Supported trx inv' i := by
  rw [supported_iff, supported_iff, hdata, resolve?_congr haccounts]

theorem harvest_eq_of_agrees (haccounts : inv.accounts = inv'.accounts)
    (hdata : inv.data = inv'.data)
    (h : ∀ i role key, Supported site.trx inv i → WritableQueue site.trx inv i role key →
      Option.Rel (AccountChange.Agrees role) (inv.change? key) (inv'.change? key)) :
    harvest site inv' = harvest site inv := by
  by_cases hsupported : ∃ i, Supported site.trx inv i
  · obtain ⟨i, hi⟩ := hsupported
    obtain ⟨hdecode, accounts, ha⟩ := supported_iff.mp hi
    have hdecode' : Instruction.decode inv'.data = .ok i := hdata ▸ hdecode
    have ha' := (resolve?_congr haccounts).trans ha
    have hrequests := rel_queueChange? .requestQueue ha fun key => h i .requestQueue key hi
    have hevents := rel_queueChange? .eventQueue ha fun key => h i .eventQueue key hi
    rw [harvest_eq hdecode ha, harvest_eq hdecode' ha', fromRequests_eq hrequests,
      fromEvents_eq hevents]
  · have hnone : ∀ i, ¬Supported site.trx inv i := fun i hi => hsupported ⟨i, hi⟩
    have hnone' : ∀ i, ¬Supported site.trx inv' i :=
      fun i hi => hnone i ((supported_congr haccounts hdata).mpr hi)
    rw [harvest_of_not_supported hnone, harvest_of_not_supported hnone']

/-- The results of the executed instructions of a transaction, from a position on. -/
def harvestsFrom (programs : List PublicKey) (b : Block) (trx : Transaction) (start : Nat)
    (invs : List Invocation) : List (Except ExtractError Harvest) :=
  ((invs.zipIdx start).filter fun p => isConfigured programs trx p.1).map fun p =>
    harvest (b.site trx p.2) p.1

theorem harvestsFrom_cons {programs : List PublicKey} {b : Block} {trx : Transaction} {start : Nat}
    {invs : List Invocation} :
    harvestsFrom programs b trx start (inv :: invs) =
      if isConfigured programs trx inv = true then
        harvest (b.site trx start) inv :: harvestsFrom programs b trx (start + 1) invs
      else harvestsFrom programs b trx (start + 1) invs := by
  rw [harvestsFrom, List.zipIdx_cons, List.filter_cons]
  split
  · rfl
  · rfl

theorem harvestsFrom_eq {programs : List PublicKey} {b : Block} {trx : Transaction}
    {invs invs' : List Invocation} (h : List.Forall₂ (Invocation.Agrees programs trx) invs invs')
    (start : Nat) : harvestsFrom programs b trx start invs' = harvestsFrom programs b trx start invs := by
  -- an instruction of another program gives nothing, but still counts for the positions behind it
  induction h generalizing start with
  | nil => rfl
  | @cons inv inv' invs invs' hinv _ ih =>
    rw [harvestsFrom_cons, harvestsFrom_cons, ih]
    cases hinv with
    | foreign hforeign hforeign' =>
      rw [hforeign, hforeign']
      rfl
    | configured hprogram haccounts hdata hchanges =>
      have hconfigured : isConfigured programs trx inv' = isConfigured programs trx inv := by
        rw [isConfigured, isConfigured, hprogram]
      have hharvest : harvest (b.site trx start) inv' = harvest (b.site trx start) inv :=
        harvest_eq_of_agrees haccounts hdata hchanges
      rw [hconfigured, hharvest]

/-- Of a transaction, the fields beside its instructions count. -/
theorem harvest_site {b b' : Block} {t t' : Transaction} (hnumber : b.number = b'.number)
    (hid : b.id = b'.id) (htimestamp : b.timestamp = b'.timestamp) (hname : t.id = t'.id)
    (hindex : t.index = t'.index) (hheader : t.header = t'.header) (hkeys : t.keys = t'.keys)
    (j : Nat) : harvest (b'.site t' j) inv = harvest (b.site t j) inv := by
  obtain ⟨name, index, failed, header, keys, invocations⟩ := t
  obtain ⟨name', index', failed', header', keys', invocations'⟩ := t'
  obtain rfl : name = name' := hname
  obtain rfl : index = index' := hindex
  obtain rfl : header = header' := hheader
  obtain rfl : keys = keys' := hkeys
  rw [Block.site, Block.site, hnumber, hid, htimestamp]
  rfl

end Extraction

/-! ### Blocks -/

namespace Block
variable {programs : List PublicKey} {b b' : Block}

theorem map_harvest_executed :
    ((executed programs b).map fun p => harvest p.1 p.2) =
      (b.transactions.filter (!·.failed)).flatMap fun t =>
        harvestsFrom programs b t 0 t.invocations := by
  rw [executed, List.map_flatMap]
  simp only [List.map_map]
  rfl

theorem Agrees.harvestsFrom (h : b.Agrees programs b') {t t' : Transaction}
    (ht : t.Agrees programs t') :
    harvestsFrom programs b' t' 0 t'.invocations = harvestsFrom programs b t 0 t.invocations := by
  have hconfigured : isConfigured programs t' = isConfigured programs t := by
    funext inv
    rw [isConfigured, isConfigured, ht.keys]
  rw [← harvestsFrom_eq ht.invocations, Extraction.harvestsFrom, Extraction.harvestsFrom,
    hconfigured]
  refine List.map_congr_left fun p _ => ?_
  exact harvest_site h.number h.id h.timestamp ht.id ht.index ht.header ht.keys p.2

theorem Agrees.map_harvest (h : b.Agrees programs b') :
    ((executed programs b').map fun p => harvest p.1 p.2) =
      (executed programs b).map fun p => harvest p.1 p.2 := by
  rw [map_harvest_executed, map_harvest_executed]
  have htransactions := h.transactions
  generalize b.transactions.filter (!·.failed) = ts at htransactions ⊢
  generalize b'.transactions.filter (!·.failed) = ts' at htransactions ⊢
  induction htransactions with
  | nil => rfl
  | cons ht _ ih => rw [List.flatMap_cons, List.flatMap_cons, ih, h.harvestsFrom ht]

theorem extract_eq_of_agrees (h : b.Agrees programs b') :
    b'.extract programs = b.extract programs := by
  have hharvests : ((executed programs b').mapM fun p => harvest p.1 p.2) =
      (executed programs b).mapM fun p => harvest p.1 p.2 :=
    Results.mapM_congr h.map_harvest
  rw [extract, extract, hharvests, h.number, h.id, h.timestamp]

end Block

namespace Matching
open Queue.Wrapped

/-- Behind an instruction of another program, orders are matched. The request queue, the last of the
keys, is read-only. -/
def transaction (other : Bytes) (changes : List AccountChange) : Transaction :=
  { id := "", index := 4, failed := false, header := ⟨0, 0, 1⟩
    keys := [key 0, key 1, key 2, key 3]
    invocations := [
      { program := 1, accounts := [], data := other, changes := [] },
      { program := 0, accounts := [1, 3, 2], data := (Instruction.matchOrders 5).encode, changes }] }

def plain : Block :=
  { number := 10, id := "", previousId := "", timestamp := .epoch
    transactions := [transaction [] [⟨key 2, [], queue.encode⟩]] }

/-- Around the same queue stand a transaction that failed, and changes that do not count. -/
def disturbed : Block :=
  { plain with
    transactions := [
      { transaction [] [⟨key 2, [], [1]⟩] with failed := true },
      transaction [7] [⟨key 1, [], [1]⟩, ⟨key 3, [], [1]⟩, ⟨key 2, [], littered⟩,
        ⟨key 2, [1], [1]⟩]] }

theorem alike_littered : Queue.Alike EventEntry queue.encode littered := by
  have haccount : littered = Queue.account queue.header (Queue.region littered) := by
    decide +kernel
  rw [haccount]
  exact .of_slots (Queue.decode_encode wellFormed) (by decide +kernel) (by decide +kernel)

theorem agrees_disturbed : plain.Agrees [key 0] disturbed := by
  refine ⟨rfl, rfl, rfl, .cons ⟨rfl, rfl, rfl, rfl, .cons (.foreign ?_ ?_) (.cons ?_ .nil)⟩ .nil⟩
  · decide +kernel
  · decide +kernel
  · refine .configured rfl rfl rfl fun i role account hi hqueue => ?_
    obtain ⟨position, k, hposition, hk, hkey, hwritable⟩ := hqueue
    have hdecode : Instruction.decode (Instruction.matchOrders 5).encode = .ok (.matchOrders 5) := by
      decide +kernel
    obtain rfl := Except.ok.inj (hi.decoded.symm.trans hdecode)
    cases role with
    | requestQueue =>
      obtain rfl : 1 = position := Option.some.inj hposition
      obtain rfl : 3 = k := Option.some.inj hk
      cases hwritable
    | eventQueue =>
      obtain rfl : 2 = position := Option.some.inj hposition
      obtain rfl : 2 = k := Option.some.inj hk
      obtain rfl : key 2 = account := Option.some.inj hkey
      exact .some ⟨.same, alike_littered⟩

end Matching

open Matching in
theorem Block.extract_eq_of_agrees_disturbed :
    plain.Agrees [key 0] disturbed ∧ plain ≠ disturbed ∧
      disturbed.extract [key 0] = plain.extract [key 0] ∧
      (plain.extract [key 0]).map (·.events.length) = .ok 2 := by
  refine ⟨agrees_disturbed, fun heq => ?_, extract_eq_of_agrees agrees_disturbed, by decide +kernel⟩
  cases congrArg (fun b : Block => b.transactions.length) heq

end DexIndex
