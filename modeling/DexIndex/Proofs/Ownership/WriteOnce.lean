import DexIndex.Proofs.Ownership.Interleaving
import DexIndex.Proofs.Writer.Owners
import Mathlib.Data.List.Nodup

/-!
# An account keeps its owner

However the steps of lookups, claims and loads are ordered, an account has one owner: the one in the
table at the start, or else the one of the first claim that was recorded
(`SharedLedger.write_once`). The invariant is about the ownerships known so far, those in the table
at the start and then those recorded by claims. No account is among them twice, and the cache, the
table, the calls under way and the answers name no others.
-/

namespace DexIndex

open Ownership

def Table.OwnersReadable (t : Table) : Prop :=
  ∀ r ∈ t.scan keyPrefix none, (decodeKey r.1).isOk ∧ (decodeTrader r.2).isOk

instance (t : Table) : Decidable t.OwnersReadable :=
  inferInstanceAs (Decidable (∀ r ∈ t.scan keyPrefix none, _))

theorem Table.OwnersReadable.mem_range {t : Table} (h : t.OwnersReadable) {r : Row}
    (hr : r ∈ t.scan keyPrefix none) : r ∈ Set.range row := by
  obtain ⟨hkey, hvalue⟩ := h r hr
  cases hk : decodeKey r.1 with
  | error e =>
    rw [hk] at hkey
    cases hkey
  | ok account =>
    cases hv : decodeTrader r.2 with
    | error e =>
      rw [hv] at hvalue
      cases hvalue
    | ok trader => exact ⟨⟨account, trader⟩, row_of_decode hk hv⟩

/-! ### What is known of owners -/

/-- The store and the cache of a ledger name no owners but known ones. -/
structure Ledger.Agrees (l : Ledger) (known : List Ownership) : Prop where
  rows : ∀ r ∈ l.store.table.scan keyPrefix none, r ∈ known.map row
  cache : ∀ account trader, l.cache.find? account = some trader → ⟨account, trader⟩ ∈ known

/-- What steps of calls make of a ledger: nothing is written, and nothing is forgotten. -/
structure Ledger.Grows (l l' : Ledger) : Prop where
  table : l'.store.table = l.store.table
  cache : ∀ account trader, l.cache.find? account = some trader →
    l'.cache.find? account = some trader

namespace Ledger
variable {l l' : Ledger} {known : List Ownership}

theorem Grows.ofStore {s : Store} (h : l.store.ReadFrom s) : l.Grows { l with store := s } :=
  ⟨h.table, fun _ _ => id⟩

theorem Agrees.withStore (h : l.Agrees known) {s : Store} (hs : s.table = l.store.table) :
    Agrees { l with store := s } known :=
  ⟨fun r hr => h.rows r (hs ▸ hr), h.cache⟩

theorem Agrees.exists_trader (h : l.Agrees known) {account : PublicKey} {value : Bytes}
    (hget : l.store.table.get? (encodeKey account) = some value) :
    ∃ trader, ⟨account, trader⟩ ∈ known ∧ value = encodeTrader trader := by
  have hscan : (encodeKey account, value) ∈ l.store.table.scan keyPrefix none :=
    Table.mem_scan_none.mpr ⟨hget, _, rfl⟩
  obtain ⟨o, ho, hrow⟩ := List.mem_map.mp (h.rows _ hscan)
  obtain ⟨hkey, hvalue⟩ := Prod.mk.inj hrow
  obtain rfl := encodeKey_injective hkey
  exact ⟨o.trader, ho, hvalue.symm⟩

theorem Agrees.withCache (h : l.Agrees known) {c : OwnerCache} {os : List Ownership}
    (hos : ∀ o ∈ os, o ∈ known) (hc : ∀ a, c.find? a = (l.cache.find? a).or (first? os a)) :
    l.Grows { l with cache := c } ∧ Agrees { l with cache := c } known := by
  refine ⟨⟨rfl, ?_⟩, ⟨h.rows, ?_⟩⟩
  · intro account trader hfind
    show c.find? account = some trader
    rw [hc, hfind, Option.some_or]
  · intro account trader hfind
    have hor := (hc account).symm.trans hfind
    rcases Option.or_eq_some_iff.mp hor with hfind | ⟨_, hfirst⟩
    · exact h.cache account trader hfind
    · exact hos _ (mem_of_first? hfirst)

theorem Agrees.mono (h : l.Agrees known) (new : List Ownership) : l.Agrees (known ++ new) := by
  refine ⟨fun r hr => ?_, fun account trader hfind => ?_⟩
  · rw [List.map_append]
    exact List.mem_append_left _ (h.rows r hr)
  · exact List.mem_append_left _ (h.cache account trader hfind)

end Ledger

namespace OwnerCache

theorem find?_record_self (c : OwnerCache) (account trader : PublicKey) :
    (c.record account trader).2.find? account = some (c.record account trader).1 := by
  have h := c.find?_record ⟨account, trader⟩ account
  rw [first?_cons, if_pos rfl] at h
  rw [h]
  unfold record
  cases c.find? account <;> rfl

/-- A claim gives a row if the account has no owner, and records the owner then. -/
theorem claim_cases (c : OwnerCache) (o : Ownership) :
    ((c.find? o.account).isSome ∧ c.claim o.account o.trader = (none, c)) ∨
      (c.find? o.account = none ∧ ∃ c', c.claim o.account o.trader = (some o.row, c') ∧
        ∀ a, c'.find? a = (c.find? a).or (first? [o] a)) := by
  unfold claim
  cases hfind : c.find? o.account with
  | some owner => exact .inl ⟨rfl, rfl⟩
  | none =>
    refine .inr ⟨rfl, (c.record o.account o.trader).2, ?_, c.find?_record o⟩
    simp only [record, hfind]
    rfl

end OwnerCache

/-! ### The steps of a call -/

def Lookup.Fits (known : List Ownership) (account : PublicKey) : Lookup → Prop
  | stored trader => ⟨account, trader⟩ ∈ known
  | _ => True

/-- What a step of a lookup gives is known; that there is no owner is what the table says. -/
def Lookup.Gives (known : List Ownership) (t : Table) (account : PublicKey) :
    Lookup ⊕ Except StoreError (Option PublicKey) → Prop
  | .inl stage => stage.Fits known account
  | .inr (.ok (some trader)) => ⟨account, trader⟩ ∈ known
  | .inr (.ok none) => t.get? (encodeKey account) = none
  | .inr (.error _) => True

theorem Lookup.step_gives {l : Ledger} {known : List Ownership} {account : PublicKey}
    {stage : Lookup} (hl : l.Agrees known) (hstage : stage.Fits known account) :
    ∃ r l', stage.step account l = (r, l') ∧ l.Grows l' ∧ l'.Agrees known ∧
      Lookup.Gives known l.store.table account r := by
  have hsame : l.Grows l := .ofStore (.refl _)
  cases stage with
  | due =>
    rw [step]
    cases hfind : l.cache.find? account with
    | some trader => exact ⟨_, _, rfl, hsame, hl, hl.cache account trader hfind⟩
    | none => exact ⟨_, _, rfl, hsame, hl, trivial⟩
  | missed =>
    obtain ⟨s, hs, hread | ⟨_, e, hread⟩⟩ := l.store.read_cases (·.get? (encodeKey account))
    · have hget : l.get (encodeKey account) =
          (.ok (l.store.table.get? (encodeKey account)), { l with store := s }) := by
        simp only [Ledger.get, Store.get, hread]
      simp only [step, hget]
      cases hvalue : l.store.table.get? (encodeKey account) with
      | none => exact ⟨_, _, rfl, .ofStore hs, hl.withStore hs.table, hvalue⟩
      | some value =>
        obtain ⟨trader, hknown, rfl⟩ := hl.exists_trader hvalue
        simp only [decodeTrader_encodeTrader]
        exact ⟨_, _, rfl, .ofStore hs, hl.withStore hs.table, hknown⟩
    · have hget : l.get (encodeKey account) = (.error e, { l with store := s }) := by
        simp only [Ledger.get, Store.get, hread]
      simp only [step, hget]
      exact ⟨_, _, rfl, .ofStore hs, hl.withStore hs.table, trivial⟩
  | stored trader =>
    obtain ⟨hgrows, hagrees⟩ := hl.withCache (List.forall_mem_singleton.mpr hstage)
      (l.cache.find?_record ⟨account, trader⟩)
    refine ⟨_, _, rfl, hgrows, hagrees, ?_⟩
    exact hagrees.cache account _ (l.cache.find?_record_self account trader)

namespace LedgerCall

/-- What a call under way relies on: what it has found is known, and an account without owner is not
among those stored at the start. -/
def Fits (stored known : List Ownership) : LedgerCall → Prop
  | lookUp account stage => stage.Fits known account
  | claim o stage => stage.Fits known o.account
  | insert o => o.account ∉ stored.map (·.account)
  | load => True
  | record rows => ∀ r ∈ rows, r ∈ known.map row

end LedgerCall

/-- The owner that an answer names is known, and the row that it gives is the row of the claim. -/
def LedgerReply.Fits (known : List Ownership) : LedgerReply → Prop
  | trader account (.ok (some owner)) => ⟨account, owner⟩ ∈ known
  | claimed o (.ok (some r)) => r = o.row
  | _ => True

theorem LedgerReply.eq_claimed {reply : LedgerReply} {r : Row} (h : reply.row? = some r) :
    ∃ o, reply = .claimed o (.ok (some r)) := by
  rcases reply with _ | ⟨o, e | row⟩ | _
  · cases h
  · cases h
  · obtain rfl : row = some r := h
    exact ⟨o, rfl⟩
  · cases h

def LedgerCall.Gives (stored known : List Ownership) : LedgerCall ⊕ LedgerReply → Prop
  | .inl call => call.Fits stored known
  | .inr reply => reply.Fits known ∧ reply.granted? = none

/-- A step of a call gives what is known, unless it records a claim. -/
theorem LedgerCall.step_cases {l : Ledger} {stored known : List Ownership} {call : LedgerCall}
    (hl : l.Agrees known)
    (hkept : ∀ o ∈ stored, (l.store.table.get? (encodeKey o.account)).isSome)
    (hcall : call.Fits stored known) :
    (∃ r l', call.step l = (r, l') ∧ l.Grows l' ∧ l'.Agrees known ∧
      LedgerCall.Gives stored known r) ∨
    (∃ o, call = .insert o ∧ l.cache.find? o.account = none) := by
  cases call with
  | lookUp account stage =>
    obtain ⟨r, l', hstep, hgrows, hagrees, hgives⟩ := Lookup.step_gives hl hcall
    left
    simp only [step, hstep]
    rcases r with stage' | e | _ | trader
    · exact ⟨_, _, rfl, hgrows, hagrees, hgives⟩
    · exact ⟨_, _, rfl, hgrows, hagrees, trivial, rfl⟩
    · exact ⟨_, _, rfl, hgrows, hagrees, trivial, rfl⟩
    · exact ⟨_, _, rfl, hgrows, hagrees, hgives, rfl⟩
  | claim o stage =>
    obtain ⟨r, l', hstep, hgrows, hagrees, hgives⟩ := Lookup.step_gives hl hcall
    left
    simp only [step, hstep]
    rcases r with stage' | e | _ | trader
    · exact ⟨_, _, rfl, hgrows, hagrees, hgives⟩
    · exact ⟨_, _, rfl, hgrows, hagrees, trivial, rfl⟩
    · refine ⟨_, _, rfl, hgrows, hagrees, fun hmem => ?_⟩
      -- a row that was stored at the start is still there
      obtain ⟨o', ho', haccount⟩ := List.mem_map.mp hmem
      have hsome := hkept o' ho'
      rw [haccount, show l.store.table.get? (encodeKey o.account) = none from hgives] at hsome
      cases hsome
    · exact ⟨_, _, rfl, hgrows, hagrees, trivial, rfl⟩
  | insert o =>
    rcases l.cache.claim_cases o with ⟨_, hclaim⟩ | ⟨hfind, _⟩
    · left
      simp only [step, hclaim]
      exact ⟨_, _, rfl, .ofStore (.refl _), hl, trivial, rfl⟩
    · exact .inr ⟨o, rfl, hfind⟩
  | load =>
    left
    obtain ⟨s, hs, hread | ⟨_, e, hread⟩⟩ := l.store.read_cases (·.scan keyPrefix none)
    · simp only [step, Ledger.scan, Store.scan, hread]
      exact ⟨_, _, rfl, .ofStore hs, hl.withStore hs.table, hl.rows⟩
    · simp only [step, Ledger.scan, Store.scan, hread]
      exact ⟨_, _, rfl, .ofStore hs, hl.withStore hs.table, trivial, rfl⟩
  | record rows =>
    left
    obtain ⟨os, rfl⟩ : rows ∈ Set.range (List.map row) := by
      rw [Set.range_list_map]
      intro r hr
      obtain ⟨o, _, ho⟩ := List.mem_map.mp (hcall r hr)
      exact ⟨o, ho⟩
    have hos : ∀ o ∈ os, o ∈ known := by
      intro o ho
      exact (List.mem_map_of_injective row_injective).mp (hcall _ (List.mem_map_of_mem ho))
    obtain ⟨c, hrecord, hfind⟩ := l.cache.recordRows_rows os
    obtain ⟨hgrows, hagrees⟩ := hl.withCache hos hfind
    simp only [step, hrecord]
    exact ⟨_, _, rfl, hgrows, hagrees, trivial, rfl⟩

theorem Lookup.Fits.mono {known : List Ownership} {account : PublicKey} {stage : Lookup}
    (h : stage.Fits known account) (new : List Ownership) : stage.Fits (known ++ new) account := by
  cases stage with
  | due | missed => trivial
  | stored trader => exact List.mem_append_left _ h

theorem LedgerCall.Fits.mono {stored known : List Ownership} {call : LedgerCall}
    (h : call.Fits stored known) (new : List Ownership) : call.Fits stored (known ++ new) := by
  cases call with
  | lookUp | claim => exact Lookup.Fits.mono h new
  | insert | load => exact h
  | record rows =>
    intro r hr
    rw [List.map_append]
    exact List.mem_append_left _ (h r hr)

theorem LedgerCall.fits_update {stored known : List Ownership} {calls : Nat → Option LedgerCall}
    (h : ∀ id call, calls id = some call → call.Fits stored known) {id : Nat}
    {next : Option LedgerCall} (hnext : ∀ call, next = some call → call.Fits stored known) :
    ∀ id' call, Function.update calls id next id' = some call → call.Fits stored known := by
  intro id' call hcall
  rw [Function.update_apply] at hcall
  split at hcall
  · exact hnext call hcall
  · exact h id' call hcall

theorem LedgerCall.fits_clear {stored known : List Ownership} {calls : Nat → Option LedgerCall}
    (h : ∀ id call, calls id = some call → call.Fits stored known) (id : Nat) :
    ∀ id' call, Function.update calls id none id' = some call → call.Fits stored known := by
  refine fits_update h ?_
  intro call hnone
  cases hnone

theorem LedgerReply.Fits.mono {known : List Ownership} {reply : LedgerReply}
    (h : reply.Fits known) (new : List Ownership) : reply.Fits (known ++ new) := by
  rcases reply with ⟨account, e | _ | trader⟩ | ⟨o, e | _ | r⟩ | _
  · trivial
  · trivial
  · exact List.mem_append_left _ h
  · trivial
  · trivial
  · exact h
  · trivial

/-! ### The invariant -/

namespace SharedLedger

/-- The ownerships known so far: those stored at the start and those recorded by claims. -/
def known (stored : List Ownership) (x : SharedLedger) : List Ownership := stored ++ x.granted

structure Sound (stored : List Ownership) (x : SharedLedger) : Prop where
  single : ((x.known stored).map (·.account)).Nodup
  agrees : x.ledger.Agrees (x.known stored)
  kept : ∀ o ∈ stored, (x.ledger.store.table.get? (encodeKey o.account)).isSome
  recorded : ∀ o ∈ x.granted, (x.ledger.cache.find? o.account).isSome
  calls : ∀ id call, x.calls id = some call → call.Fits stored (x.known stored)
  replies : ∀ reply ∈ x.replies, reply.Fits (x.known stored)

theorem table_written (x : SharedLedger) (timeoutMs : Nat) (batch : List Row) :
    (x.written timeoutMs batch).table = x.ledger.store.table ∨
      (x.written timeoutMs batch).table = x.ledger.store.table.insertAll batch := by
  obtain ⟨s, hs, ⟨hattempt, _⟩ | ⟨_, e, hattempt⟩⟩ := x.ledger.store.attempt_cases timeoutMs batch
  · rw [written, hattempt]
    exact hs.table
  · rw [written, hattempt]
    exact hs.table

theorem isSome_get?_written (x : SharedLedger) (timeoutMs : Nat) (batch : List Row) {key : Bytes}
    (h : (x.ledger.store.table.get? key).isSome) :
    ((x.written timeoutMs batch).table.get? key).isSome := by
  rcases x.table_written timeoutMs batch with htable | htable
  · rw [htable]
    exact h
  · rw [htable, Table.get?_insertAll, Option.isSome_or, h, Bool.or_true]

namespace Sound
variable {stored : List Ownership} {x : SharedLedger}

theorem call (h : Sound stored x) (id : Nat) (request : LedgerRequest) :
    Sound stored (x.step (.call id request)) := by
  refine ⟨h.single, h.agrees, h.kept, h.recorded, ?_, h.replies⟩
  refine LedgerCall.fits_update h.calls fun call hcall => ?_
  obtain rfl := Option.some.inj hcall
  cases request <;> trivial

/-- A step that records no claim. -/
theorem after (h : Sound stored x) (id : Nat) {r : LedgerCall ⊕ LedgerReply} {l : Ledger}
    (hgrows : x.ledger.Grows l) (hagrees : l.Agrees (x.known stored))
    (hgives : LedgerCall.Gives stored (x.known stored) r) : Sound stored (x.after id (r, l)) := by
  have hkept : ∀ o ∈ stored, (l.store.table.get? (encodeKey o.account)).isSome := by
    rw [hgrows.table]
    exact h.kept
  have hrecorded : ∀ o ∈ x.granted, (l.cache.find? o.account).isSome := by
    intro o ho
    obtain ⟨trader, htrader⟩ := Option.isSome_iff_exists.mp (h.recorded o ho)
    rw [hgrows.cache _ _ htrader]
    rfl
  rcases r with call | reply
  · refine ⟨h.single, hagrees, hkept, hrecorded, ?_, h.replies⟩
    refine LedgerCall.fits_update h.calls fun call' hcall => ?_
    obtain rfl := Option.some.inj hcall
    exact hgives
  · have hgranted : (x.after id (.inr reply, l)).granted = x.granted := by
      simp [granted, SharedLedger.after, hgives.2]
    have hknown : (x.after id (.inr reply, l)).known stored = x.known stored := by
      rw [known, hgranted, known]
    refine ⟨hknown ▸ h.single, hknown ▸ hagrees, hkept, hgranted ▸ hrecorded, ?_, ?_⟩
    · rw [hknown]
      exact LedgerCall.fits_clear h.calls id
    · intro reply' hreply
      rw [hknown]
      rcases List.mem_append.mp hreply with hreply | hreply
      · exact h.replies reply' hreply
      · obtain rfl := List.mem_singleton.mp hreply
        exact hgives.1

/-- A step that records a claim: the account was not known. -/
theorem grant (h : Sound stored x) (id : Nat) {o : Ownership}
    (hnew : o.account ∉ stored.map (·.account)) (hfind : x.ledger.cache.find? o.account = none) :
    Sound stored (x.after id ((LedgerCall.insert o).step x.ledger)) := by
  rcases x.ledger.cache.claim_cases o with ⟨hsome, _⟩ | ⟨_, c, hclaim, hc⟩
  · rw [hfind] at hsome
    cases hsome
  have hstep : (LedgerCall.insert o).step x.ledger =
      (.inr (.claimed o (.ok (some o.row))), { x.ledger with cache := c }) := by
    simp only [LedgerCall.step, hclaim]
  rw [hstep]
  have hgranted : (x.after id (.inr (.claimed o (.ok (some o.row))),
      { x.ledger with cache := c })).granted = x.granted ++ [o] := by
    simp [granted, SharedLedger.after, LedgerReply.granted?]
  have hknown : (x.after id (.inr (.claimed o (.ok (some o.row))),
      { x.ledger with cache := c })).known stored = x.known stored ++ [o] := by
    rw [known, hgranted, known, List.append_assoc]
  have hmem : o ∈ x.known stored ++ [o] := List.mem_append_right _ (List.mem_singleton_self o)
  -- whatever was recorded before is still in the cache
  have hunknown : o.account ∉ (x.known stored).map (·.account) := by
    intro hmem
    rw [known, List.map_append, List.mem_append] at hmem
    rcases hmem with hmem | hmem
    · exact hnew hmem
    · obtain ⟨o', ho', haccount⟩ := List.mem_map.mp hmem
      have hsome := h.recorded o' ho'
      rw [haccount, hfind] at hsome
      cases hsome
  obtain ⟨hgrows, hagrees⟩ := (h.agrees.mono [o]).withCache
    (List.forall_mem_singleton.mpr hmem) hc
  constructor
  · rw [hknown, List.map_append, List.nodup_append]
    refine ⟨h.single, List.pairwise_singleton _ _, ?_⟩
    rintro account haccount _ hsingle rfl
    obtain rfl := List.mem_singleton.mp hsingle
    exact hunknown haccount
  · rw [hknown]
    exact hagrees
  · exact h.kept
  · rw [hgranted]
    intro o' ho'
    show (c.find? o'.account).isSome
    rw [hc, Option.isSome_or]
    rcases List.mem_append.mp ho' with ho' | ho'
    · rw [h.recorded o' ho', Bool.true_or]
    · obtain rfl := List.mem_singleton.mp ho'
      rw [first?_cons, if_pos rfl, Option.isSome_some, Bool.or_true]
  · rw [hknown]
    refine LedgerCall.fits_clear ?_ id
    intro id' call hcall
    exact (h.calls id' call hcall).mono [o]
  · intro reply hreply
    rw [hknown]
    rcases List.mem_append.mp hreply with hreply | hreply
    · exact (h.replies reply hreply).mono [o]
    · obtain rfl := List.mem_singleton.mp hreply
      rfl

theorem advance (h : Sound stored x) (id : Nat) : Sound stored (x.step (.advance id)) := by
  cases hcall : x.calls id with
  | none =>
    rw [step, hcall]
    exact h
  | some call =>
    rw [step_advance hcall]
    have hfits := h.calls id call hcall
    rcases LedgerCall.step_cases h.agrees h.kept hfits with
      ⟨r, l, hstep, hgrows, hagrees, hgives⟩ | ⟨o, rfl, hfind⟩
    · rw [hstep]
      exact h.after id hgrows hagrees hgives
    · exact h.grant id hfits hfind

theorem withStore (h : Sound stored x) {s : Store}
    (hrows : ∀ r ∈ s.table.scan keyPrefix none, r ∈ (x.known stored).map row)
    (hkept : ∀ key, (x.ledger.store.table.get? key).isSome → (s.table.get? key).isSome) :
    Sound stored { x with ledger := { x.ledger with store := s } } :=
  ⟨h.single, ⟨hrows, h.agrees.cache⟩, fun o ho => hkept _ (h.kept o ho), h.recorded, h.calls,
    h.replies⟩

theorem meet (h : Sound stored x) (reads : List (Option StoreError)) (writes : List WriteOutcome) :
    Sound stored (x.step (.meet reads writes)) :=
  h.withStore h.agrees.rows fun _ => id

theorem mem_rows_of_mayWrite (h : Sound stored x) {r : Row} (hmay : x.mayWrite r)
    (htag : keyPrefix <+: r.1) : r ∈ (x.known stored).map row := by
  rw [mayWrite, List.isPrefixOf_iff_prefix.mpr htag] at hmay
  simp only [Bool.not_true, Bool.false_or, Bool.or_eq_true, List.any_eq_true, beq_iff_eq] at hmay
  rcases hmay with ⟨reply, hreply, hrow⟩ | hget
  · obtain ⟨o, rfl⟩ := LedgerReply.eq_claimed hrow
    obtain rfl : r = o.row := h.replies _ hreply
    have hgranted : o ∈ x.granted := List.mem_filterMap.mpr ⟨_, hreply, rfl⟩
    exact List.mem_map_of_mem (List.mem_append_right _ hgranted)
  · exact h.agrees.rows r (Table.mem_scan_none.mpr ⟨hget, htag⟩)

theorem write (h : Sound stored x) (timeoutMs : Nat) (batch : List Row) :
    Sound stored (x.step (.write timeoutMs batch)) := by
  rw [step]
  split
  · next hmay =>
    refine h.withStore ?_ fun key => x.isSome_get?_written timeoutMs batch
    rintro ⟨key, value⟩ hr
    obtain ⟨hget, htag⟩ := Table.mem_scan_none.mp hr
    have hbefore (hget : x.ledger.store.table.get? key = some value) :
        (key, value) ∈ (x.known stored).map row :=
      h.agrees.rows _ (Table.mem_scan_none.mpr ⟨hget, htag⟩)
    -- a row in the table was there before, or it is in the batch and may be written
    rcases x.table_written timeoutMs batch with htable | htable
    · rw [htable] at hget
      exact hbefore hget
    · rw [htable] at hget
      rcases Table.mem_of_get?_insertAll hget with hbatch | hget
      · exact h.mem_rows_of_mayWrite (List.all_eq_true.mp hmay _ hbatch) htag
      · exact hbefore hget
  · exact h

theorem step (h : Sound stored x) (action : Action) : Sound stored (x.step action) := by
  cases action with
  | call id request => exact h.call id request
  | advance id => exact h.advance id
  | meet reads writes => exact h.meet reads writes
  | write timeoutMs batch => exact h.write timeoutMs batch

theorem run (h : Sound stored x) (actions : List Action) : Sound stored (x.run actions) := by
  induction actions generalizing x with
  | nil => exact h
  | cons action rest ih => exact ih (h.step action)

theorem isSome_get?_step (h : Sound stored x) (action : Action) {key : Bytes}
    (hkey : (x.ledger.store.table.get? key).isSome) :
    ((x.step action).ledger.store.table.get? key).isSome := by
  cases action with
  | call id request => exact hkey
  | advance id =>
    cases hcall : x.calls id with
    | none =>
      rw [SharedLedger.step, hcall]
      exact hkey
    | some call =>
      rw [step_advance hcall]
      rcases LedgerCall.step_cases h.agrees h.kept (h.calls id call hcall) with
        ⟨r, l, hstep, hgrows, _, _⟩ | ⟨o, rfl, _⟩
      · have hledger : (x.after id (r, l)).ledger = l := by cases r <;> rfl
        rw [hstep, hledger, hgrows.table]
        exact hkey
      · exact hkey
  | meet reads writes => exact hkey
  | write timeoutMs batch =>
    rw [SharedLedger.step]
    split
    · exact x.isSome_get?_written timeoutMs batch hkey
    · exact hkey

theorem isSome_get?_run (h : Sound stored x) (actions : List Action) {key : Bytes}
    (hkey : (x.ledger.store.table.get? key).isSome) :
    ((x.run actions).ledger.store.table.get? key).isSome := by
  induction actions generalizing x with
  | nil => exact hkey
  | cons action rest ih => exact ih (h.step action) (h.isSome_get?_step action hkey)

theorem known_subset_run (x : SharedLedger) (actions : List Action) :
    x.known stored ⊆ (x.run actions).known stored := by
  intro o ho
  rcases List.mem_append.mp ho with ho | ho
  · exact List.mem_append_left _ ho
  · exact List.mem_append_right _ (((x.replies_prefix_run actions).filterMap _).subset ho)

theorem eq_of_account (h : Sound stored x) {o o' : Ownership} (ho : o ∈ x.known stored)
    (ho' : o' ∈ x.known stored) (haccount : o.account = o'.account) : o = o' :=
  List.inj_on_of_nodup_map h.single ho ho' haccount

theorem first?_known (h : Sound stored x) {account trader : PublicKey}
    (hmem : ⟨account, trader⟩ ∈ x.known stored) :
    first? (x.known stored) account = some trader := by
  cases hfirst : first? (x.known stored) account with
  | none => exact absurd hmem (not_mem_of_first?_eq_none hfirst trader)
  | some owner =>
    have heq := h.eq_of_account (mem_of_first? hfirst) hmem rfl
    rw [(Ownership.mk.inj heq).2]

end Sound

theorem exists_sound_start {s : Store} (h : s.table.OwnersReadable) :
    ∃ stored, Sound stored (start s) ∧
      ∀ a, (first? stored a).map encodeTrader = s.table.get? (encodeKey a) := by
  obtain ⟨stored, hrows, hfirst⟩ := Table.exists_owners fun r => h.mem_range
  refine ⟨stored, ⟨?_, ⟨?_, ?_⟩, ?_, ?_, ?_, ?_⟩, hfirst⟩
  · have hsorted := s.table.sorted_scan_none keyPrefix
    rw [← hrows, List.pairwise_map] at hsorted
    show (List.map Ownership.account (stored ++ [])).Nodup
    rw [List.append_nil, List.Nodup, List.pairwise_map]
    refine hsorted.imp ?_
    intro (o : Ownership) (o' : Ownership) hlt haccount
    rw [row, row, haccount] at hlt
    exact List.lt_irrefl _ hlt
  · intro r hr
    show r ∈ (stored ++ []).map row
    rw [List.append_nil, hrows]
    exact hr
  · intro account trader hfind
    cases hfind
  · intro o ho
    have hscan : o.row ∈ s.table.scan keyPrefix none := hrows ▸ List.mem_map_of_mem ho
    show (s.table.get? (encodeKey o.account)).isSome
    rw [(Table.mem_scan_none.mp hscan).1]
    rfl
  · intro o ho
    cases ho
  · intro id call hcall
    cases hcall
  · intro reply hreply
    cases hreply

/-- For each account a claim gives a row at most once, and none if the table had its owner; every
lookup that finds an owner finds the same one, which is the one in the table at the start or else
the first recorded; what the table holds for an account stays; and where reading the store ends in
an error, the call answers with it and the cache is as it was. -/
theorem write_once {s : Store} (h : s.table.OwnersReadable) (actions : List Action) :
    let x := (start s).run actions
    (∀ a, (x.granted.map (·.account)).count a ≤
      if (s.table.get? (encodeKey a)).isSome then 0 else 1) ∧
    (∀ o r, .claimed o (.ok (some r)) ∈ x.replies → r = o.row) ∧
    (∀ a trader, .trader a (.ok (some trader)) ∈ x.replies →
      (s.table.get? (encodeKey a)).or ((first? x.granted a).map encodeTrader) =
        some (encodeTrader trader)) ∧
    (∀ a value, x.ledger.store.table.get? (encodeKey a) = some value →
      ∀ more, (x.run more).ledger.store.table.get? (encodeKey a) = some value) ∧
    (∀ id call e reply, x.calls id = some call → x.ledger.store.reads.head? = some (some e) →
      call.failed? e = some reply →
      (x.step (.advance id)).ledger.cache = x.ledger.cache ∧
        (x.step (.advance id)).replies = x.replies ++ [reply]) := by
  intro x
  obtain ⟨stored, hstart, hstored⟩ := exists_sound_start h
  have hx : Sound stored x := hstart.run actions
  refine ⟨?_, ?_, ?_, ?_, ?_⟩
  · intro a
    have hnodup := hx.single
    rw [known, List.map_append, List.nodup_append] at hnodup
    obtain ⟨_, hgranted, hdisjoint⟩ := hnodup
    split
    · next hsome =>
      rw [← hstored, Option.isSome_map] at hsome
      obtain ⟨trader, hfirst⟩ := Option.isSome_iff_exists.mp hsome
      have hmem : a ∈ stored.map (·.account) := List.mem_map_of_mem (mem_of_first? hfirst)
      rw [Nat.le_zero, List.count_eq_zero]
      intro hmem'
      exact hdisjoint a hmem a hmem' rfl
    · exact List.nodup_iff_count_le_one.mp hgranted a
  · intro o r hreply
    exact hx.replies _ hreply
  · intro a trader hreply
    have hfirst := hx.first?_known (hx.replies _ hreply)
    rw [known, first?_append] at hfirst
    rw [← hstored, ← Option.map_or, hfirst]
    rfl
  · intro a value hvalue more
    have hmore := hx.run more
    obtain ⟨value', hvalue'⟩ := Option.isSome_iff_exists.mp
      (hx.isSome_get?_run more (Option.isSome_iff_exists.mpr ⟨value, hvalue⟩))
    -- both values are those of known ownerships, and these have one account
    obtain ⟨trader, hmem, rfl⟩ := hx.agrees.exists_trader hvalue
    obtain ⟨trader', hmem', rfl⟩ := hmore.agrees.exists_trader hvalue'
    have heq := hmore.eq_of_account (Sound.known_subset_run x more hmem) hmem' rfl
    obtain rfl : trader = trader' := (Ownership.mk.inj heq).2
    exact hvalue'
  · intro id call e reply hcall hread hfailed
    exact x.advance_failed hcall hread hfailed

/-! ### Two claims of one account -/

def raceKey (n : UInt8) : PublicKey := ⟨List.replicate 32 n, List.length_replicate⟩

/-- A store that has the owner of the account 1. -/
def raceStore : Store := .ofTable (Table.empty.insert (row ⟨raceKey 1, raceKey 2⟩))

/-- Two traders claim the account 3, and neither claim finds an owner before the other one is
recorded. The store fails once while the account 1 is looked up. -/
def race : List Action :=
  [.call 0 (.claim ⟨raceKey 3, raceKey 4⟩), .call 1 (.claim ⟨raceKey 3, raceKey 5⟩),
    .advance 0, .advance 1, .advance 0, .advance 1, .advance 1, .advance 0,
    .write 100 [row ⟨raceKey 3, raceKey 5⟩],
    .call 2 (.trader (raceKey 3)), .advance 2,
    .meet [some (.connection "gone")] [],
    .call 3 (.trader (raceKey 1)), .advance 3, .advance 3,
    .call 4 (.trader (raceKey 1)), .advance 4, .advance 4, .advance 4,
    .call 5 .load, .advance 5, .advance 5]

theorem write_once_of_race :
    raceStore.table.OwnersReadable ∧
    ((start raceStore).run race).replies =
      [.claimed ⟨raceKey 3, raceKey 5⟩ (.ok (some (row ⟨raceKey 3, raceKey 5⟩))),
        .claimed ⟨raceKey 3, raceKey 4⟩ (.ok none),
        .trader (raceKey 3) (.ok (some (raceKey 5))),
        .trader (raceKey 1) (.error (.connection "gone")),
        .trader (raceKey 1) (.ok (some (raceKey 2))),
        .loaded (.ok 2)] ∧
    ∀ more, (((start raceStore).run race).run more).ledger.store.table.get?
      (encodeKey (raceKey 3)) = some (encodeTrader (raceKey 5)) := by
  have hreadable : raceStore.table.OwnersReadable := by decide +kernel
  obtain ⟨_, _, _, hstays, _⟩ := write_once hreadable race
  refine ⟨hreadable, ?_, ?_⟩
  · decide +kernel
  · refine hstays (raceKey 3) (encodeTrader (raceKey 5)) ?_
    decide +kernel

end SharedLedger

end DexIndex
