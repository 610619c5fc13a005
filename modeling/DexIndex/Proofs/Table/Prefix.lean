import DexIndex.Proofs.Table.Lookup
import Mathlib.Data.List.TakeWhile

/-!
# The range of a prefix

The keys from a prefix up to its upper bound are exactly the keys that start with the prefix
(`inRange_iff`), so that a scan gives exactly the rows of those keys (`mem_scan_none`).
-/

namespace DexIndex.Table

theorem le_full (b : UInt8) : b ≤ 0xff := by
  rw [UInt8.le_iff_toNat_le]
  have := b.toNat_lt
  change b.toNat ≤ 255
  omega

theorem lt_succ_iff {b c : UInt8} (hb : b ≠ 0xff) : c < b + 1 ↔ c ≤ b := by
  have hb' : b.toNat ≠ 255 := fun h => hb (UInt8.toNat_inj.mp h)
  have hlt := b.toNat_lt
  rw [UInt8.lt_iff_toNat_lt, UInt8.le_iff_toNat_le, UInt8.toNat_add]
  change c.toNat < (b.toNat + 1) % 256 ↔ _
  omega

theorem replicate_full_le_iff (n : Nat) (key : Bytes) :
    List.replicate n 0xff ≤ key ↔ List.replicate n 0xff <+: key := by
  induction n generalizing key with
  | zero => simp
  | succ n ih =>
    rw [List.replicate_succ]
    cases key with
    | nil => simp
    | cons c r =>
      rw [List.cons_le_cons_iff, List.cons_prefix_cons, ih]
      constructor
      · rintro (hlt | h)
        · exact absurd hlt (UInt8.not_lt.mpr (le_full c))
        · exact h
      · exact .inr

/-- A prefix that can grow: `b` is its last byte that is not full. -/
theorem between_iff (q : Bytes) {b : UInt8} (hb : b ≠ 0xff) (n : Nat) (key : Bytes) :
    (q ++ b :: List.replicate n 0xff ≤ key ∧ key < q ++ [b + 1]) ↔
      q ++ b :: List.replicate n 0xff <+: key := by
  induction q generalizing key with
  | nil =>
    rw [List.nil_append, List.nil_append]
    cases key with
    | nil => simp
    | cons c r =>
      rw [List.cons_le_cons_iff, List.cons_lt_cons_iff, List.cons_prefix_cons, lt_succ_iff hb,
        replicate_full_le_iff]
      constructor
      · rintro ⟨hlt | ⟨rfl, hr⟩, hle⟩
        · rcases hle with hle | ⟨_, hr⟩
          · exact absurd hlt (UInt8.not_lt.mpr hle)
          · exact absurd hr (List.not_lt_nil r)
        · exact ⟨rfl, hr⟩
      · rintro ⟨rfl, hr⟩
        exact ⟨.inr ⟨rfl, hr⟩, .inl (UInt8.le_refl b)⟩
  | cons a q ih =>
    cases key with
    | nil => simp
    | cons c r =>
      rw [List.cons_append, List.cons_append, List.cons_le_cons_iff, List.cons_lt_cons_iff,
        List.cons_prefix_cons, ← ih]
      constructor
      · rintro ⟨hlt | ⟨rfl, hp⟩, hlt' | ⟨heq, hr⟩⟩
        · exact absurd hlt (UInt8.lt_asymm hlt')
        · exact absurd (heq ▸ hlt) (UInt8.lt_irrefl a)
        · exact absurd hlt' (UInt8.lt_irrefl a)
        · exact ⟨rfl, hp, hr⟩
      · rintro ⟨rfl, hp, hr⟩
        exact ⟨.inr ⟨rfl, hp⟩, .inr ⟨rfl, hr⟩⟩

theorem eq_replicate_of_dropWhile_eq_nil {l : Bytes} (h : l.dropWhile (· == 0xff) = []) :
    l = List.replicate l.length 0xff :=
  List.eq_replicate_iff.mpr ⟨rfl, fun b hb => by simpa using List.dropWhile_eq_nil_iff.mp h b hb⟩

/-- What stands before and after the last byte that is not full. -/
theorem eq_of_dropWhile_reverse {p r : Bytes} {b : UInt8}
    (h : p.reverse.dropWhile (· == 0xff) = b :: r) :
    b ≠ 0xff ∧ ∃ n, p = r.reverse ++ b :: List.replicate n 0xff := by
  have hb : (b == 0xff) = false := by
    have hhead := List.head?_dropWhile_not (· == 0xff) p.reverse
    rwa [h] at hhead
  have hfull : p.reverse.takeWhile (· == 0xff) =
      List.replicate (p.reverse.takeWhile (· == 0xff)).length 0xff :=
    List.eq_replicate_iff.mpr ⟨rfl, fun c hc => by simpa using List.mem_takeWhile_imp hc⟩
  refine ⟨by simpa using hb, (p.reverse.takeWhile (· == 0xff)).length, ?_⟩
  calc p = (p.reverse.takeWhile (· == 0xff) ++ p.reverse.dropWhile (· == 0xff)).reverse := by
        rw [List.takeWhile_append_dropWhile, List.reverse_reverse]
    _ = (List.replicate (p.reverse.takeWhile (· == 0xff)).length 0xff ++ b :: r).reverse := by
        rw [← hfull, h]
    _ = _ := by simp

theorem inRange_iff (p key : Bytes) : inRange p key ↔ p <+: key := by
  unfold inRange upperBound?
  cases h : p.reverse.dropWhile (· == 0xff) with
  | nil =>
    have hp := eq_replicate_of_dropWhile_eq_nil h
    rw [List.length_reverse] at hp
    have hp : p = List.replicate p.length 0xff := by
      rw [← List.reverse_reverse p, hp]; simp
    rw [hp]
    simpa using replicate_full_le_iff p.length key
  | cons b r =>
    obtain ⟨hb, n, rfl⟩ := eq_of_dropWhile_reverse h
    simpa using between_iff r.reverse hb n key

theorem scan_none (t : Table) (p : Bytes) : t.scan p none = t.rows.filter (inRange p ·.1) := rfl

theorem mem_scan_none {t : Table} {p key value : Bytes} :
    (key, value) ∈ t.scan p none ↔ t.get? key = some value ∧ p <+: key := by
  rw [scan_none, List.mem_filter, mem_rows_iff, inRange_iff]

theorem sorted_scan_none (t : Table) (p : Bytes) :
    (t.scan p none).Pairwise (fun a b => a.1 < b.1) :=
  t.sorted.filter _

end DexIndex.Table
