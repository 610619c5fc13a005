import DexIndex.Store.Table

/-!
# Tables as maps

What a table holds under a key after rows were put into it (`get?_insert`, `get?_insertAll`: the last
row of a key stays), and that this is all there is to a table (`ext_get?`). A batch put in twice is
put in once (`insertAll_self`), and rows of other keys make no difference to a key.
-/

namespace DexIndex.Table

theorem lookup_cons_ite (row : Row) (r : List Row) (key : Bytes) :
    (row :: r).lookup key = if key = row.1 then some row.2 else r.lookup key := by
  rw [List.lookup_cons]
  by_cases hk : key = row.1
  · rw [if_pos hk, beq_iff_eq.mpr hk]
  · rw [if_neg hk, beq_eq_false_iff_ne.mpr hk]

theorem lookup_filter (keep : Bytes → Bool) {rows : List Row} {key : Bytes} (h : keep key) :
    (rows.filter (keep ·.1)).lookup key = rows.lookup key := by
  induction rows with
  | nil => rfl
  | cons r rows ih =>
    rw [List.filter_cons]
    split
    · rw [lookup_cons_ite, lookup_cons_ite, ih]
    · next hr =>
      rw [lookup_cons_ite, ih, if_neg]
      rintro rfl
      exact hr h

theorem lookup_insertRow (k v : Bytes) (rows : List Row) (key : Bytes) :
    (insertRow k v rows).lookup key = if key = k then some v else rows.lookup key := by
  induction rows with
  | nil => exact lookup_cons_ite (k, v) [] key
  | cons row r ih =>
    obtain ⟨k', v'⟩ := row
    simp only [insertRow]
    split
    · exact lookup_cons_ite (k, v) _ key
    · split
      · next heq =>
        subst heq
        simp only [lookup_cons_ite]
        split <;> rfl
      · next hne =>
        simp only [lookup_cons_ite, ih]
        by_cases hk : key = k
        · rw [if_neg fun hk' : key = k' => hne (hk ▸ hk'), if_pos hk, if_pos hk]
        · rw [if_neg hk, if_neg hk]

@[simp] theorem get?_empty (key : Bytes) : empty.get? key = none := rfl

theorem get?_insert (t : Table) (row : Row) (key : Bytes) :
    (t.insert row).get? key = if key = row.1 then some row.2 else t.get? key :=
  lookup_insertRow row.1 row.2 t.rows key

@[simp] theorem insertAll_nil (t : Table) : t.insertAll [] = t := rfl

@[simp] theorem insertAll_cons (t : Table) (row : Row) (rows : List Row) :
    t.insertAll (row :: rows) = (t.insert row).insertAll rows := rfl

theorem insertAll_append (t : Table) (a b : List Row) :
    t.insertAll (a ++ b) = (t.insertAll a).insertAll b :=
  List.foldl_append

/-- The last row of a key in a batch stays. -/
theorem get?_insertAll (t : Table) (batch : List Row) (key : Bytes) :
    (t.insertAll batch).get? key = (batch.reverse.lookup key).or (t.get? key) := by
  induction batch generalizing t with
  | nil => rfl
  | cons row r ih =>
    rw [insertAll_cons, ih, get?_insert, List.reverse_cons, List.lookup_append, Option.or_assoc,
      lookup_cons_ite]
    congr 1
    split <;> rfl

/-- Only rows whose keys are kept make a difference to a key that is kept. -/
theorem get?_insertAll_filter (t : Table) {rows : List Row} {keep : Bytes → Bool} {key : Bytes}
    (h : keep key) : (t.insertAll (rows.filter (keep ·.1))).get? key = (t.insertAll rows).get? key := by
  rw [get?_insertAll, get?_insertAll, ← List.filter_reverse, lookup_filter keep h]

theorem get?_insertAll_of_not_mem {t : Table} {batch : List Row} {key : Bytes}
    (h : key ∉ batch.map (·.1)) : (t.insertAll batch).get? key = t.get? key := by
  rw [get?_insertAll, List.lookup_eq_none_iff.mpr, Option.none_or]
  intro row hrow
  have hne : key ≠ row.1 := fun he => h (he ▸ List.mem_map_of_mem (List.mem_reverse.mp hrow))
  simpa using hne

theorem isSome_get?_insertAll_of_isSome {t : Table} {key : Bytes} (h : (t.get? key).isSome)
    (batch : List Row) : ((t.insertAll batch).get? key).isSome := by
  rw [get?_insertAll, Option.isSome_or, h, Bool.or_true]

theorem foldl_insertAll (t : Table) (batches : List (List Row)) :
    batches.foldl insertAll t = t.insertAll batches.flatten :=
  List.foldl_flatten.symm

/-- The table that holds the rows of batches. -/
def ofBatches (batches : List (List Row)) : Table := batches.foldl insertAll empty

theorem get?_ofBatches (batches : List (List Row)) (key : Bytes) :
    (ofBatches batches).get? key = batches.flatten.reverse.lookup key := by
  rw [ofBatches, foldl_insertAll, get?_insertAll, get?_empty, Option.or_none]

theorem isSome_get?_foldl {t : Table} {key : Bytes} (h : (t.get? key).isSome)
    (batches : List (List Row)) : ((batches.foldl insertAll t).get? key).isSome := by
  rw [foldl_insertAll]
  exact isSome_get?_insertAll_of_isSome h batches.flatten

theorem exists_get?_insertAll (t : Table) {batch : List Row} {row : Row} (h : row ∈ batch) :
    ∃ value, (t.insertAll batch).get? row.1 = some value ∧ (row.1, value) ∈ batch := by
  rw [get?_insertAll]
  cases hl : batch.reverse.lookup row.1 with
  | none => exact absurd (List.lookup_eq_none_iff.mp hl row (List.mem_reverse.mpr h)) (by simp)
  | some value =>
    obtain ⟨a, b, hab, _⟩ := List.lookup_eq_some_iff.mp hl
    exact ⟨value, rfl, List.mem_reverse.mp (hab ▸ by simp)⟩

theorem isSome_get?_insertAll {t : Table} {batch : List Row} {row : Row} (h : row ∈ batch) :
    ((t.insertAll batch).get? row.1).isSome := by
  obtain ⟨value, hvalue, _⟩ := exists_get?_insertAll t h
  rw [hvalue]
  rfl

theorem mem_of_get?_insertAll {t : Table} {batch : List Row} {key value : Bytes}
    (h : (t.insertAll batch).get? key = some value) :
    (key, value) ∈ batch ∨ t.get? key = some value := by
  rw [get?_insertAll, Option.or_eq_some_iff] at h
  rcases h with h | ⟨_, h⟩
  · obtain ⟨a, b, hab, _⟩ := List.lookup_eq_some_iff.mp h
    exact .inl (List.mem_reverse.mp (hab ▸ by simp))
  · exact .inr h

theorem mem_rows_iff (t : Table) (key value : Bytes) :
    (key, value) ∈ t.rows ↔ t.get? key = some value := by
  unfold get?
  obtain ⟨rows, hsorted⟩ := t
  dsimp only
  induction rows with
  | nil => simp
  | cons row r ih =>
    obtain ⟨hrow, hr⟩ := List.pairwise_cons.mp hsorted
    rw [List.mem_cons, lookup_cons_ite, ih hr]
    by_cases hk : key = row.1
    · have hnone : List.lookup key r = none := by
        refine List.lookup_eq_none_iff.mpr fun x hx => ?_
        have hne : key ≠ x.1 := fun he => List.lt_irrefl _ (hk ▸ he ▸ hrow x hx)
        simpa using hne
      simp [← hk, hnone, Prod.ext_iff, eq_comm]
    · have hne : (key, value) ≠ row := fun h => hk (h ▸ rfl)
      simp [hk, hne]

theorem nodup_rows (t : Table) : t.rows.Nodup :=
  t.sorted.imp fun {x y} hxy (heq : x = y) => List.lt_irrefl _ (heq ▸ hxy)

/-- Two tables that hold the same under every key are the same. -/
theorem ext_get? {a b : Table} (h : ∀ key, a.get? key = b.get? key) : a = b := by
  refine ext_rows (List.Perm.eq_of_pairwise ?_ a.sorted b.sorted ?_)
  · intro x y _ _ hxy hyx
    exact absurd hyx (List.lt_asymm hxy)
  · refine (List.perm_ext_iff_of_nodup a.nodup_rows b.nodup_rows).mpr fun x => ?_
    rw [mem_rows_iff a x.1 x.2, mem_rows_iff b x.1 x.2, h]

/-- Two tables that hold the same under all keys but some. -/
def SameBut (keys : List Bytes) (t u : Table) : Prop := ∀ key, key ∉ keys → t.get? key = u.get? key

namespace SameBut
variable {keys : List Bytes} {t u : Table}

theorem refl (keys : List Bytes) (t : Table) : SameBut keys t t := fun _ _ => rfl

theorem insertAll (h : SameBut keys t u) (batch : List Row) :
    SameBut keys (t.insertAll batch) (u.insertAll batch) := by
  intro key hkey
  rw [get?_insertAll, get?_insertAll, h key hkey]

theorem insertAll_left (h : SameBut keys t u) {batch : List Row} (hkeys : batch.map (·.1) ⊆ keys) :
    SameBut keys (t.insertAll batch) u := by
  intro key hkey
  rw [get?_insertAll_of_not_mem fun hmem => hkey (hkeys hmem), h key hkey]

/-- Once there are rows under all of those keys, the tables are the same. -/
theorem insertAll_eq {batch : List Row} (h : SameBut (batch.map (·.1)) t u) :
    t.insertAll batch = u.insertAll batch := by
  refine ext_get? fun key => ?_
  by_cases hkey : key ∈ batch.map (·.1)
  · obtain ⟨row, hrow, rfl⟩ := List.mem_map.mp hkey
    rw [get?_insertAll, get?_insertAll]
    cases hl : batch.reverse.lookup row.1 with
    | none => exact absurd (List.lookup_eq_none_iff.mp hl row (List.mem_reverse.mpr hrow)) (by simp)
    | some value => rfl
  · exact h.insertAll batch key hkey

end SameBut

theorem insertAll_self (t : Table) (batch : List Row) :
    (t.insertAll batch).insertAll batch = t.insertAll batch := by
  refine ext_get? fun key => ?_
  simp only [get?_insertAll]
  cases batch.reverse.lookup key <;> rfl

end DexIndex.Table
