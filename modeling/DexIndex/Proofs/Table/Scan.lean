import DexIndex.Proofs.Lists
import DexIndex.Proofs.Table.Prefix
import DexIndex.Store.Basic
import Mathlib.Data.List.Induction

/-!
# Scans

The upper bound of a prefix is found from its last byte on, one byte at a time
(`upperBound?_concat`). There is one unless all bytes are full, and it is the least key above all
keys with the prefix (`Above.bound_le`). So it lies above the prefix itself, the rows from the prefix
up to the bound can be walked through, and a scan gives what the walk meets (`walk?_upperBound`).
-/

namespace DexIndex.Table

/-! ### The upper bound of a prefix -/

theorem upperBound?_concat (p : Bytes) (b : UInt8) :
    upperBound? (p ++ [b]) = if b = 0xff then upperBound? p else some (p ++ [b + 1]) := by
  unfold upperBound?
  rw [List.reverse_concat]
  by_cases hb : b = 0xff
  · rw [List.dropWhile_cons_of_pos (by simpa using hb), if_pos hb]
  · rw [List.dropWhile_cons_of_neg (by simpa using hb), if_neg hb]
    simp

example : upperBound? [1, 0xff, 0xff] = some [2] := by decide

theorem upperBound?_eq_none_iff (p : Bytes) : upperBound? p = none ↔ ∀ b ∈ p, b = 0xff := by
  induction p using List.reverseRecOn with
  | nil => simp [upperBound?]
  | append_singleton p b ih =>
    rw [upperBound?_concat]
    split
    · next hb => simp [ih, hb, or_imp]
    · next hb => simp [hb]

/-- A key above all keys with a prefix. -/
def Above (p v : Bytes) : Prop := ∀ key, p <+: key → key < v

section Bound
variable {p key v upper : Bytes}

theorem inRange_iff_of_none (h : upperBound? p = none) : inRange p key ↔ p ≤ key := by
  simp [inRange, h]

theorem inRange_iff_of_some (h : upperBound? p = some upper) :
    inRange p key ↔ p ≤ key ∧ key < upper := by
  simp [inRange, h]

theorem above_bound (h : upperBound? p = some upper) : Above p upper := fun key hkey =>
  ((inRange_iff_of_some h).mp ((inRange_iff p key).mpr hkey)).2

namespace Above

theorem self_lt (h : Above p v) : p < v := h p (List.prefix_refl p)

theorem not_inRange (h : Above p v) : ¬ inRange p v := fun hrange =>
  List.lt_irrefl v (h v ((inRange_iff p v).mp hrange))

theorem bound_le (h : Above p v) (hupper : upperBound? p = some upper) : upper ≤ v := by
  refine List.not_lt.mp fun hlt => h.not_inRange ?_
  exact (inRange_iff_of_some hupper).mpr ⟨List.le_of_lt h.self_lt, hlt⟩

end Above

theorem not_above (h : upperBound? p = none) : ¬ Above p v := fun habove =>
  habove.not_inRange ((inRange_iff_of_none h).mpr (List.le_of_lt habove.self_lt))

end Bound

/-! ### Walks -/

/-- The rows from a key on, and below another one if there is another, met one after another from the
first one that is not below the start. There is no walk that ends before it starts. -/
def walk? (t : Table) (lower : Bytes) (upper : Option Bytes) : Option (List Row) :=
  if upper.all (lower ≤ ·) then
    some ((t.rows.dropWhile (·.1 < lower)).takeWhile fun row => upper.all (row.1 < ·))
  else none

/-- Since the rows are in ascending order, those below the start stand before all others, and so do
those below the end. -/
theorem walk?_eq_some (t : Table) {lower : Bytes} {upper : Option Bytes}
    (h : upper.all (lower ≤ ·)) :
    t.walk? lower upper =
      some (t.rows.filter fun row => lower ≤ row.1 && upper.all (row.1 < ·)) := by
  have hlower : t.rows.Pairwise fun a b => decide (b.1 < lower) → decide (a.1 < lower) :=
    t.sorted.imp fun hab hb => by simpa using List.lt_trans hab (of_decide_eq_true hb)
  have hupper : (t.rows.dropWhile (·.1 < lower)).Pairwise fun a b =>
      upper.all (b.1 < ·) → upper.all (a.1 < ·) := by
    refine (t.sorted.sublist (List.dropWhile_sublist _)).imp fun hab hb => ?_
    cases upper with
    | none => rfl
    | some u => simpa using List.lt_trans hab (by simpa using hb)
  rw [walk?, if_pos h, ← Lists.filter_eq_takeWhile hupper, ← Lists.filter_not_eq_dropWhile hlower,
    List.filter_filter]
  congr 1
  refine List.filter_congr fun row _ => ?_
  rw [Bool.and_comm, ← decide_not, decide_eq_decide.mpr List.not_lt]

theorem walk?_upperBound (t : Table) (p : Bytes) :
    t.walk? p (upperBound? p) = some (t.scan p none) := by
  refine t.walk?_eq_some ?_
  cases h : upperBound? p with
  | none => rfl
  | some upper => simpa using List.le_of_lt (above_bound h).self_lt

/-- The range of a prefix is exact. It has no upper bound just if all bytes of the prefix are full, and
then the keys from the prefix on all start with it, and no key is above all of these. Otherwise the
keys from the prefix up to the bound are those that start with the prefix, and the bound is the least
key above all of them. In any table the rows of this range can be walked through, they are those
whose keys start with the prefix, and a scan gives the first of them in ascending order, as many as
its limit allows. -/
theorem range_exact (p : Bytes) :
    (upperBound? p = none ↔ ∀ b ∈ p, b = 0xff) ∧
    (match upperBound? p with
      | none => (∀ key, p ≤ key → p <+: key) ∧ ∀ v, ¬ Above p v
      | some upper =>
        (∀ key, p ≤ key ∧ key < upper ↔ p <+: key) ∧ Above p upper ∧ ∀ v, Above p v → upper ≤ v) ∧
    ∀ t : Table, ∃ rows : List Row,
      rows.Pairwise (fun a b => a.1 < b.1) ∧
      (∀ key value, (key, value) ∈ rows ↔ t.get? key = some value ∧ p <+: key) ∧
      t.walk? p (upperBound? p) = some rows ∧
      ∀ limit, (Store.ofTable t).scan p (some limit) = (.ok (rows.take limit), .ofTable t) := by
  refine ⟨upperBound?_eq_none_iff p, ?_, fun t => ?_⟩
  · cases h : upperBound? p with
    | none =>
      exact ⟨fun key hkey => (inRange_iff p key).mp ((inRange_iff_of_none h).mpr hkey),
        fun _ => not_above h⟩
    | some upper =>
      exact ⟨fun key => (inRange_iff_of_some h).symm.trans (inRange_iff p key), above_bound h,
        fun _ hv => hv.bound_le h⟩
  · exact ⟨t.scan p none, t.sorted_scan_none p, fun _ _ => mem_scan_none, t.walk?_upperBound p,
      fun _ => rfl⟩

end DexIndex.Table
