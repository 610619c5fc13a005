import DexIndex.Proofs.Results
import DexIndex.Proofs.Lists
import DexIndex.Proofs.Table.Prefix
import DexIndex.Store.SortedSet

/-!
# Sorted sets that mirror tables

A server that was written to in the same batches as a table has the keys of the table as its members
and the values of the table under them (`Mirrors.writeAll`). So it answers as the table does
(`Mirrors.hget`, `Mirrors.scan_eq`), and keys that were found have values still when more batches were
written in the meantime (`Mirrors.scanValues_later`).
-/

namespace DexIndex.SortedSet

/-- The server to which a client has written batches. -/
def Client.written (c : Client) (batches : List (List Row)) : Server :=
  batches.foldl c.write .empty

/-- A server that has the keys of a table as its members and the values of the table under them. -/
structure Mirrors (t : Table) (s : Server) : Prop where
  members : s.members = t.rows.map (·.1)
  hget : ∀ key, s.hget key = t.get? key

namespace Server

theorem insertMember_keys (k v : Bytes) (rows : List Row) :
    insertMember k (rows.map (·.1)) = (Table.insertRow k v rows).map (·.1) := by
  induction rows with
  | nil => rfl
  | cons row r ih =>
    obtain ⟨k', v'⟩ := row
    simp only [List.map_cons, insertMember, Table.insertRow, ih]
    split
    · rfl
    · split
      · next heq => rw [heq]; rfl
      · rfl

theorem hget_zadd (s : Server) (m key : Bytes) : (s.zadd m).hget key = s.hget key := rfl

theorem hget_hset (s : Server) (field value key : Bytes) :
    (s.hset field value).hget key = if key = field then some value else s.hget key := by
  change List.lookup key ((field, value) :: s.values.filter (·.1 != field)) = _
  rw [Table.lookup_cons_ite]
  split
  · rfl
  · next hne =>
    exact Table.lookup_filter (· != field) (bne_iff_ne.mpr hne)

end Server

namespace Mirrors
variable {t : Table} {s : Server} {c : Client}

theorem empty : Mirrors .empty .empty := ⟨rfl, fun _ => rfl⟩

theorem write (h : Mirrors t s) (c : Client) (batch : List Row) :
    Mirrors (t.insertAll batch) (c.write s batch) := by
  induction batch generalizing t s with
  | nil => exact h
  | cons row r ih =>
    obtain ⟨k, v⟩ := row
    refine ih ⟨?_, fun key => ?_⟩
    · change Server.insertMember k s.members = _
      rw [h.members, Server.insertMember_keys k v]
      rfl
    · rw [Server.hget_hset, Server.hget_zadd, h.hget, Table.get?_insert]

theorem writeAll (h : Mirrors t s) (c : Client) (batches : List (List Row)) :
    Mirrors (batches.foldl Table.insertAll t) (batches.foldl c.write s) := by
  induction batches generalizing t s with
  | nil => exact h
  | cons batch r ih => exact ih (h.write c batch)

theorem written (c : Client) (batches : List (List Row)) :
    Mirrors (.ofBatches batches) (c.written batches) :=
  empty.writeAll c batches

/-! ### Reading -/

/-- The members between the ends of a prefix are the keys in its range. -/
theorem between_bounds (p key : Bytes) :
    ((Client.bounds p).1.below key && (Client.bounds p).2.above key) = Table.inRange p key := by
  have hlower : (Client.bounds p).1.below key = decide (p ≤ key) := by
    cases p with
    | nil => simp [Client.bounds, Bound.below]
    | cons b r => rfl
  have hupper : (Client.bounds p).2.above key = (Table.upperBound? p).all (key < ·) := by
    unfold Client.bounds
    cases Table.upperBound? p <;> rfl
  rw [hlower, hupper, Table.inRange]

theorem scanKeys_eq (h : Mirrors t s) (p : Bytes) (limit : Nat) :
    c.scanKeys s p limit = (t.scan p (some (min limit Client.maxCount))).map (·.1) := by
  have hkeys : s.zrangebylex (Client.bounds p).1 (Client.bounds p).2 (min limit Client.maxCount) =
      (t.scan p (some (min limit Client.maxCount))).map (·.1) := by
    simp only [Server.zrangebylex, between_bounds, h.members, List.filter_map, Table.scan,
      List.map_take]
    rfl
  unfold Client.scanKeys
  split
  · next hzero => rw [hzero]; rfl
  · exact hkeys

/-- Where there is a value for each key, there is a row for each. -/
theorem scanValues_of_hget {rows : List Row} (h : ∀ row ∈ rows, s.hget row.1 = some row.2) :
    c.scanValues s (rows.map (·.1)) = .ok rows := by
  unfold Client.scanValues Server.hmget
  rw [Results.mapM_eq_ok, List.map_map, List.zip_map', List.map_map]
  exact List.map_congr_left fun row hrow => by simp [h row hrow]

theorem scan_eq (h : Mirrors t s) (p : Bytes) (limit : Nat) :
    c.scan s p limit = .ok (t.scan p (some (min limit Client.maxCount))) := by
  unfold Client.scan
  rw [h.scanKeys_eq]
  refine scanValues_of_hget fun row hrow => ?_
  have hmem : row ∈ t.scan p none := List.mem_of_mem_take hrow
  rw [h.hget]
  exact (Table.mem_scan_none.mp hmem).1

theorem scanValues_later (h : Mirrors t s) (later : List (List Row)) (p : Bytes) (limit : Nat) :
    ∃ found : List Row,
      c.scanValues (later.foldl c.write s) (c.scanKeys s p limit) = .ok found ∧
        found.map (·.1) = c.scanKeys s p limit ∧
        ∀ row ∈ found, (later.foldl Table.insertAll t).get? row.1 = some row.2 := by
  have hlater := h.writeAll c later
  -- a key that is there once is there for good, with the value that was written last
  obtain ⟨found, hkeys, hfound⟩ : ∃ found : List Row,
      found.map (·.1) = c.scanKeys s p limit ∧
        ∀ row ∈ found, (later.foldl Table.insertAll t).get? row.1 = some row.2 := by
    refine Lists.exists_map_eq fun key hkey => ?_
    rw [h.scanKeys_eq] at hkey
    obtain ⟨⟨_, value⟩, hrow, rfl⟩ := List.mem_map.mp hkey
    have hget := (Table.mem_scan_none.mp (List.mem_of_mem_take hrow)).1
    obtain ⟨value', hvalue'⟩ := Option.isSome_iff_exists.mp
      (Table.isSome_get?_foldl (Option.isSome_iff_exists.mpr ⟨value, hget⟩) later)
    exact ⟨(_, value'), hvalue', rfl⟩
  refine ⟨found, ?_, hkeys, hfound⟩
  rw [← hkeys]
  exact scanValues_of_hget fun row hrow => (hlater.hget _).trans (hfound row hrow)

end Mirrors

end DexIndex.SortedSet
