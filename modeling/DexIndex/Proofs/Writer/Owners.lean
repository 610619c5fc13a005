import DexIndex.Proofs.Key.Canonical
import DexIndex.Proofs.Writer.Backed
import DexIndex.Proofs.Writer.Steps
import Mathlib.Data.List.Basic
import Mathlib.Data.Set.List

/-!
# Reading the owners back

A new cache that reads all rows of owners in a table knows exactly the owners that the table has
(`Ledger.loadOwners_cases`).
-/

namespace DexIndex

open BlockEvents

namespace Ownership

theorem encodeTrader_injective : Function.Injective encodeTrader :=
  fun _ _ h => PublicKey.ext_bytes h

theorem encodeTrader_of_decode {value : Bytes} {trader : PublicKey}
    (h : decodeTrader value = .ok trader) : encodeTrader trader = value := by
  unfold decodeTrader PublicKey.ofBytes? at h
  split at h
  · next k hk =>
    obtain rfl := Except.ok.inj h
    split at hk
    · obtain rfl := Option.some.inj hk
      rfl
    · cases hk
  · cases h

theorem row_of_decode {key value : Bytes} {account trader : PublicKey}
    (hkey : decodeKey key = .ok account) (hvalue : decodeTrader value = .ok trader) :
    row ⟨account, trader⟩ = (key, value) := by
  rw [row, canonical_key.write_read _ _ hkey, encodeTrader_of_decode hvalue]

end Ownership

namespace OwnerCache

theorem find?_eq_first? (c : OwnerCache) (a : PublicKey) :
    c.find? a = Ownership.first? (c.owners.map fun p => ⟨p.1, p.2⟩) a := by
  unfold find?
  induction c.owners with
  | nil => rfl
  | cons p rest ih =>
    rw [List.lookup_cons, List.map_cons, Ownership.first?_cons, ← ih]
    by_cases h : a = p.1
    · rw [if_pos h, beq_iff_eq.mpr h]
    · rw [if_neg h, beq_eq_false_iff_ne.mpr h]

theorem find?_record (c : OwnerCache) (o : Ownership) (a : PublicKey) :
    (c.record o.account o.trader).2.find? a =
      (c.find? a).or (Ownership.first? [o] a) := by
  unfold record
  cases h : c.find? o.account with
  | some owner =>
    rw [Ownership.first?_cons]
    by_cases ha : a = o.account
    · rw [ha, h, Option.some_or]
    · rw [if_neg ha, Ownership.first?_nil, Option.or_none]
  | none =>
    simp only [find?, List.lookup_append, Ownership.first?_cons, Ownership.first?_nil,
      List.lookup_singleton, beq_iff_eq]

theorem recordRows_rows (c : OwnerCache) (os : List Ownership) :
    ∃ c', c.recordRows (os.map Ownership.row) = (.ok (), c') ∧
      ∀ a, c'.find? a = (c.find? a).or (Ownership.first? os a) := by
  induction os generalizing c with
  | nil => exact ⟨c, rfl, fun a => by simp⟩
  | cons o os ih =>
    obtain ⟨c', hrows, hfind⟩ := ih (c.record o.account o.trader).2
    refine ⟨c', ?_, fun a => ?_⟩
    · simp only [List.map_cons, Ownership.row, recordRows, Ownership.decodeKey_encodeKey,
        Ownership.decodeTrader_encodeTrader]
      exact hrows
    · rw [hfind, find?_record, Option.or_assoc, ← Ownership.first?_append, List.singleton_append]

end OwnerCache

theorem OwnerCache.mem_range_of_recordRows {c c' : OwnerCache} {rows : List Row}
    (h : c.recordRows rows = (.ok (), c')) : ∀ r ∈ rows, r ∈ Set.range Ownership.row := by
  induction rows generalizing c with
  | nil => simp
  | cons r rows ih =>
    obtain ⟨key, value⟩ := r
    rw [recordRows] at h
    split at h
    · next account trader hkey hvalue =>
      refine List.forall_mem_cons.mpr ⟨⟨⟨account, trader⟩, ?_⟩, ih h⟩
      exact Ownership.row_of_decode hkey hvalue
    · cases h
    · cases h

/-- The owners in a table in which all rows of owners can be read. -/
theorem Table.exists_owners {t : Table}
    (h : ∀ r ∈ t.scan Ownership.keyPrefix none, r ∈ Set.range Ownership.row) :
    ∃ os : List Ownership, os.map Ownership.row = t.scan Ownership.keyPrefix none ∧
      ∀ a, (Ownership.first? os a).map Ownership.encodeTrader = t.get? (Ownership.encodeKey a) := by
  obtain ⟨os, hos⟩ : t.scan Ownership.keyPrefix none ∈ Set.range (List.map Ownership.row) := by
    rw [Set.range_list_map]
    exact h
  refine ⟨os, hos, fun a => ?_⟩
  have hmem (trader : PublicKey) :
      ⟨a, trader⟩ ∈ os ↔ t.get? (Ownership.encodeKey a) = some (Ownership.encodeTrader trader) := by
    rw [← List.mem_map_of_injective Ownership.row_injective, hos, Ownership.row,
      Table.mem_scan_none]
    exact ⟨And.left, fun hget => ⟨hget, _, rfl⟩⟩
  cases hf : Ownership.first? os a with
  | some trader => exact ((hmem trader).mp (Ownership.mem_of_first? hf)).symm
  | none =>
    refine (Option.eq_none_iff_forall_ne_some.mpr fun value hget => ?_).symm
    have hscan : (Ownership.encodeKey a, value) ∈ t.scan Ownership.keyPrefix none :=
      Table.mem_scan_none.mpr ⟨hget, _, rfl⟩
    obtain ⟨o, ho⟩ := h _ hscan
    obtain ⟨hkey, rfl⟩ := Prod.mk.inj ho
    obtain rfl := Ownership.encodeKey_injective hkey
    exact Ownership.not_mem_of_first?_eq_none hf o.trader ((hmem o.trader).mpr hget)

theorem Table.Backed.scan_owners {t : Table} (h : t.Backed) :
    ∃ os : List Ownership, os.map Ownership.row = t.scan Ownership.keyPrefix none ∧
      ∀ a, (Ownership.first? os a).map Ownership.encodeTrader = t.get? (Ownership.encodeKey a) := by
  refine Table.exists_owners ?_
  rintro ⟨key, value⟩ hr
  obtain ⟨hget, rest, rfl⟩ := Table.mem_scan_none.mp hr
  rcases h.cases hget with ⟨o, hr⟩ | ⟨c, hr⟩ | ⟨e, trader, _, hr, _⟩
  · exact ⟨o, hr.symm⟩
  · exact absurd (List.cons.inj (congrArg Prod.fst hr)).1 (by decide)
  · exact absurd (Event.tag_of_mem_eventRows hr) (by simp [Ownership.keyPrefix]; decide)

theorem Ledger.loadOwners_cases {l : Ledger} (hc : l.cache = .empty) (ht : l.store.table.Backed) :
    ∃ l', l.store.ReadFrom l'.store ∧
      ((∃ n, l.loadOwners = (.ok n, l') ∧ ∀ a,
          (l'.cache.find? a).map Ownership.encodeTrader =
            l.store.table.get? (Ownership.encodeKey a)) ∨
        (l.store.reads ≠ [] ∧ ∃ e, l.loadOwners = (.error e, l'))) := by
  unfold loadOwners scan Store.scan
  obtain ⟨s, hs, hscan | ⟨hr, e, hscan⟩⟩ := l.store.read_cases (·.scan Ownership.keyPrefix none)
  · obtain ⟨os, hos, hfirst⟩ := ht.scan_owners
    obtain ⟨c, hrows, hfind⟩ := OwnerCache.empty.recordRows_rows os
    refine ⟨⟨s, c⟩, hs, .inl ⟨c.size, ?_, fun a => ?_⟩⟩
    · simp only [hscan, hc, ← hos, hrows]
    · rw [hfind, ← hfirst]
      rfl
  · exact ⟨{ l with store := s }, hs, .inr ⟨hr, e, by simp only [hscan]⟩⟩

/-- A load that succeeds makes the owners in the table known. -/
theorem Ledger.owners_of_loadOwners {l l' : Ledger} {n : Nat} (hc : l.cache = .empty)
    (h : l.loadOwners = (.ok n, l')) :
    l'.store.table = l.store.table ∧ ∃ os, ∀ a, l'.cache.find? a = Ownership.first? os a ∧
      l.store.table.get? (Ownership.encodeKey a) =
        (Ownership.first? os a).map Ownership.encodeTrader := by
  unfold loadOwners scan Store.scan at h
  obtain ⟨s, hs, hscan | ⟨_, e, hscan⟩⟩ := l.store.read_cases (·.scan Ownership.keyPrefix none)
  · rw [hscan, hc] at h
    dsimp only at h
    rcases hrecord : OwnerCache.empty.recordRows (l.store.table.scan Ownership.keyPrefix none) with
      ⟨_ | _, c⟩
    · rw [hrecord] at h
      cases h
    · rw [hrecord] at h
      cases h
      obtain ⟨os, hos, hfirst⟩ :=
        Table.exists_owners (OwnerCache.mem_range_of_recordRows hrecord)
      obtain ⟨c', hrecord', hfind⟩ := OwnerCache.empty.recordRows_rows os
      rw [hos, hrecord] at hrecord'
      obtain ⟨_, rfl⟩ := Prod.mk.inj hrecord'
      exact ⟨hs.table, os, fun a => ⟨hfind a, (hfirst a).symm⟩⟩
  · rw [hscan] at h
    cases h

end DexIndex
