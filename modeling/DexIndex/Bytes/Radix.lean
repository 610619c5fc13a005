/-!
# Digits of a number

The digits of a number in a base, without leading zeros, and the number with given digits. Both
lists start with the least significant digit.
-/

namespace DexIndex.Radix

/-- The digits of `n` in base `b + 2`. -/
def digits (b n : Nat) : List Nat :=
  if h : n = 0 then [] else n % (b + 2) :: digits b (n / (b + 2))
termination_by n
decreasing_by exact Nat.div_lt_self (Nat.pos_of_ne_zero h) (by omega)

/-- The number with the digits `ds` in base `b + 2`. -/
def value (b : Nat) : List Nat → Nat
  | [] => 0
  | d :: r => d + (b + 2) * value b r

theorem value_digits (b n : Nat) : value b (digits b n) = n := by
  fun_induction digits b n with
  | case1 => rfl
  | case2 n _ ih => rw [value, ih, Nat.mod_add_div]

theorem lt_of_mem_digits {b n d : Nat} (h : d ∈ digits b n) : d < b + 2 := by
  fun_induction digits b n with
  | case1 => simp at h
  | case2 n _ ih =>
    rcases List.mem_cons.mp h with rfl | h
    · exact Nat.mod_lt _ (by omega)
    · exact ih h

end DexIndex.Radix
