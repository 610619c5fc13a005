import Mathlib.Data.List.Basic

/-!
# Lists

What lists lack: reading every item with success, finding a preimage of every item, keeping items that
stand before or behind all others, numbers that follow one another, a run of equal items in front of
others, and finding values by their keys.
-/

namespace DexIndex.Lists
variable {α β : Type}

theorem mapM_eq_some {read : α → Option β} {f : α → β} {xs : List α}
    (h : ∀ x ∈ xs, read x = some (f x)) : xs.mapM read = some (xs.map f) := by
  induction xs with
  | nil => rfl
  | cons x xs ih =>
    obtain ⟨hx, hxs⟩ := List.forall_mem_cons.mp h
    rw [List.mapM_cons, hx, ih hxs]
    rfl

theorem exists_map_eq {f : α → β} {p : α → Prop} {ys : List β} (h : ∀ y ∈ ys, ∃ x, p x ∧ f x = y) :
    ∃ xs : List α, xs.map f = ys ∧ ∀ x ∈ xs, p x := by
  induction ys with
  | nil => exact ⟨[], rfl, fun x hx => by cases hx⟩
  | cons y ys ih =>
    obtain ⟨⟨x, hx, rfl⟩, hys⟩ := List.forall_mem_cons.mp h
    obtain ⟨xs, rfl, hxs⟩ := ih hys
    exact ⟨x :: xs, rfl, List.forall_mem_cons.mpr ⟨hx, hxs⟩⟩

/-- Where the items to be kept stand before all others, keeping them is stopping at the first other. -/
theorem filter_eq_takeWhile {keep : α → Bool} {xs : List α}
    (h : xs.Pairwise fun x y => keep y → keep x) : xs.filter keep = xs.takeWhile keep := by
  induction xs with
  | nil => rfl
  | cons x xs ih =>
    obtain ⟨hx, hxs⟩ := List.pairwise_cons.mp h
    by_cases hkeep : keep x
    · rw [List.filter_cons_of_pos hkeep, List.takeWhile_cons_of_pos hkeep, ih hxs]
    · rw [List.filter_cons_of_neg hkeep, List.takeWhile_cons_of_neg hkeep]
      exact List.filter_eq_nil_iff.mpr fun y hy hkept => hkeep (hx y hy hkept)

theorem filter_not_eq_dropWhile {leave : α → Bool} {xs : List α}
    (h : xs.Pairwise fun x y => leave y → leave x) : xs.filter (!leave ·) = xs.dropWhile leave := by
  induction xs with
  | nil => rfl
  | cons x xs ih =>
    obtain ⟨hx, hxs⟩ := List.pairwise_cons.mp h
    by_cases hleave : leave x
    · rw [List.filter_cons_of_neg (by simpa using hleave), List.dropWhile_cons_of_pos hleave, ih hxs]
    · rw [List.dropWhile_cons_of_neg hleave]
      refine List.filter_eq_self.mpr (List.forall_mem_cons.mpr ⟨by simpa using hleave, ?_⟩)
      intro y hy
      simpa using fun hleft => hleave (hx y hy hleft)

theorem eq_range'_of_isChain {a : Nat} {ns : List Nat}
    (h : (a :: ns).IsChain fun a b => b = a + 1) : a :: ns = List.range' a (ns.length + 1) := by
  induction ns generalizing a with
  | nil => rfl
  | cons b ns ih =>
    obtain ⟨rfl, h⟩ := List.isChain_cons_cons.mp h
    rw [List.length_cons, List.range'_succ, ← ih h]

/-- Of numbers that follow one another, none of them a multiple of `m`, there are less than `m`. -/
theorem length_lt_of_isChain {m : Nat} (hm : 0 < m) {ns : List Nat}
    (h : ns.IsChain fun a b => b = a + 1) (hn : ∀ n ∈ ns, n % m ≠ 0) : ns.length < m := by
  cases ns with
  | nil => exact hm
  | cons a ns =>
    refine Nat.lt_of_not_le fun hle => ?_
    rw [List.length_cons] at hle
    -- the first multiple from `a` on is among the numbers
    have hdiv := Nat.div_add_mod (a + m - 1) m
    have hmod := Nat.mod_lt (a + m - 1) hm
    have hmem : m * ((a + m - 1) / m) ∈ a :: ns := by
      rw [eq_range'_of_isChain h, List.mem_range'_1]
      omega
    exact hn _ hmem (Nat.mul_mod_right m _)

variable [BEq α] [LawfulBEq α]

theorem takeWhile_replicate_append (z : α) (n : Nat) {xs : List α} (h : xs.head? ≠ some z) :
    (List.replicate n z ++ xs).takeWhile (· == z) = List.replicate n z := by
  rw [List.takeWhile_append_of_pos fun x hx => by simp [List.eq_of_mem_replicate hx]]
  cases xs with
  | nil => simp
  | cons x xs =>
    have hx : x ≠ z := by simpa using h
    rw [List.takeWhile_cons_of_neg (by simpa using hx), List.append_nil]

theorem eq_replicate_append (z : α) (xs : List α) :
    ∃ ys, xs = List.replicate (xs.takeWhile (· == z)).length z ++ ys ∧ ys.head? ≠ some z := by
  induction xs with
  | nil => exact ⟨[], rfl, by simp⟩
  | cons x xs ih =>
    by_cases hx : x = z
    · obtain ⟨ys, hys, hhead⟩ := ih
      subst hx
      refine ⟨ys, ?_, hhead⟩
      rw [List.takeWhile_cons_of_pos (by simp), List.length_cons, List.replicate_succ,
        List.cons_append, ← hys]
    · exact ⟨x :: xs, by rw [List.takeWhile_cons_of_neg (by simpa using hx)]; rfl, by simpa using hx⟩

theorem mem_of_lookup {xs : List (α × β)} {k : α} {v : β} (h : xs.lookup k = some v) :
    (k, v) ∈ xs := by
  obtain ⟨a, b, rfl, _⟩ := List.lookup_eq_some_iff.mp h
  exact List.mem_append_right _ List.mem_cons_self

theorem lookup_of_mem {xs : List (α × β)} (hkeys : (xs.map (·.1)).Nodup) {k : α} {v : β}
    (h : (k, v) ∈ xs) : xs.lookup k = some v := by
  induction xs with
  | nil => cases h
  | cons x xs ih =>
    obtain ⟨hx, hxs⟩ := List.nodup_cons.mp hkeys
    rcases List.mem_cons.mp h with rfl | h
    · exact List.lookup_cons_self
    · have hne : k ≠ x.1 := fun heq => hx (List.mem_map.mpr ⟨(k, v), h, heq⟩)
      rw [List.lookup_cons, beq_eq_false_iff_ne.mpr hne]
      exact ih hxs h

end DexIndex.Lists
