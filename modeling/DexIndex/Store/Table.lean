import DexIndex.Bytes.Word

/-!
# Ordered tables

A table holds rows in ascending byte order of their keys, one row for each key. A batch of rows is
put into a table one after another, so that the last row of a key stays. The keys that start with a
prefix are the ones from the prefix up to its upper bound.
-/

namespace DexIndex

abbrev Row := Bytes × Bytes

namespace Table

/-- Puts a row into ascending rows, in place of the row with its key if there is one. -/
def insertRow (k v : Bytes) : List Row → List Row
  | [] => [(k, v)]
  | (k', v') :: r =>
    if k < k' then (k, v) :: (k', v') :: r
    else if k = k' then (k, v) :: r
    else (k', v') :: insertRow k v r

theorem mem_insertRow {k v : Bytes} {rows : List Row} {x : Row} (h : x ∈ insertRow k v rows) :
    x = (k, v) ∨ x ∈ rows := by
  induction rows with
  | nil => simpa [insertRow] using h
  | cons y r ih =>
    obtain ⟨k', v'⟩ := y
    simp only [insertRow] at h
    split at h
    · simpa using h
    · split at h
      · rcases List.mem_cons.mp h with h | h
        · exact .inl h
        · exact .inr (List.mem_cons_of_mem _ h)
      · rcases List.mem_cons.mp h with h | h
        · exact .inr (h ▸ List.mem_cons_self ..)
        · exact (ih h).imp_right (List.mem_cons_of_mem _)

theorem sorted_insertRow (k v : Bytes) {rows : List Row}
    (h : rows.Pairwise (fun a b => a.1 < b.1)) :
    (insertRow k v rows).Pairwise (fun a b => a.1 < b.1) := by
  induction rows with
  | nil => simp [insertRow]
  | cons y r ih =>
    obtain ⟨k', v'⟩ := y
    obtain ⟨hy, hr⟩ := List.pairwise_cons.mp h
    simp only [insertRow]
    split
    · next hlt =>
      refine List.pairwise_cons.mpr ⟨fun x hx => ?_, h⟩
      rcases List.mem_cons.mp hx with rfl | hx
      · exact hlt
      · exact List.lt_trans hlt (hy x hx)
    · next hle =>
      split
      · next heq =>
        subst heq
        exact List.pairwise_cons.mpr ⟨hy, hr⟩
      · next hne =>
        refine List.pairwise_cons.mpr ⟨fun x hx => ?_, ih hr⟩
        rcases mem_insertRow hx with rfl | hx
        · by_cases hlt : k' < k
          · exact hlt
          · exact absurd (List.le_antisymm (List.not_lt.mp hlt) (List.not_lt.mp hle)) hne
        · exact hy x hx

end Table

structure Table where
  rows : List Row
  sorted : rows.Pairwise (fun a b => a.1 < b.1)
deriving DecidableEq

namespace Table

def empty : Table := ⟨[], .nil⟩

def insert (t : Table) (row : Row) : Table :=
  ⟨insertRow row.1 row.2 t.rows, sorted_insertRow row.1 row.2 t.sorted⟩

/-- Puts the rows of a batch into the table, in order. -/
def insertAll (t : Table) (batch : List Row) : Table := batch.foldl insert t

def get? (t : Table) (key : Bytes) : Option Bytes := t.rows.lookup key

def size (t : Table) : Nat := t.rows.length

theorem ext_rows {a b : Table} (h : a.rows = b.rows) : a = b := by
  cases a; cases b; cases h; rfl

/-! ### Prefixes -/

/-- The least key that is greater than every key with the prefix, if there is one: trailing bytes
that cannot grow are dropped, and the last byte left grows by one. -/
def upperBound? (p : Bytes) : Option Bytes :=
  match p.reverse.dropWhile (· == 0xff) with
  | [] => none
  | b :: r => some ((b + 1) :: r).reverse

def inRange (p key : Bytes) : Bool := p ≤ key && (upperBound? p).all (key < ·)

/-- The rows whose keys start with a prefix, in ascending order, and no more than `limit` of them
if there is a limit. -/
def scan (t : Table) (p : Bytes) (limit : Option Nat) : List Row :=
  let rows := t.rows.filter (inRange p ·.1)
  match limit with
  | none => rows
  | some n => rows.take n

end Table

end DexIndex
