import DexIndex.Proofs.Lists
import DexIndex.PublicKey

/-!
# Base 58 read back

The digits of a number are the only ones without leading zeros (`Radix.digits_value`), so a byte
string and its text determine each other: the bytes are read back (`Base58.decode?_encode`).
-/

namespace DexIndex

namespace Radix

theorem value_append_zeros (b : Nat) (ds : List Nat) (n : Nat) :
    value b (ds ++ List.replicate n 0) = value b ds := by
  have hzeros : value b (List.replicate n 0) = 0 := by
    induction n with
    | zero => rfl
    | succ n ih => rw [List.replicate_succ, value, ih, Nat.mul_zero]
  induction ds with
  | nil => exact hzeros
  | cons d ds ih => rw [List.cons_append, value, ih, value]

theorem value_ne_zero {b : Nat} {ds : List Nat} (h : ds.getLast? ≠ some 0) (hne : ds ≠ []) :
    value b ds ≠ 0 := by
  induction ds with
  | nil => exact absurd rfl hne
  | cons d ds ih =>
    rw [value]
    cases ds with
    | nil =>
      have hd : d ≠ 0 := by simpa using h
      simpa [value] using hd
    | cons d' ds =>
      have hrest := ih (by simpa using h) (List.cons_ne_nil _ _)
      have hpos : 0 < (b + 2) * value b (d' :: ds) := Nat.mul_pos (by omega) (Nat.pos_of_ne_zero hrest)
      omega

theorem digits_value {b : Nat} {ds : List Nat} (hlt : ∀ d ∈ ds, d < b + 2)
    (hlast : ds.getLast? ≠ some 0) : digits b (value b ds) = ds := by
  induction ds with
  | nil => rw [value, digits, dif_pos rfl]
  | cons d ds ih =>
    obtain ⟨hd, hds⟩ := List.forall_mem_cons.mp hlt
    rw [digits, dif_neg (value_ne_zero hlast (List.cons_ne_nil _ _)), value, Nat.add_mul_mod_self_left,
      Nat.mod_eq_of_lt hd, Nat.add_mul_div_left _ _ (by omega), Nat.div_eq_of_lt hd, Nat.zero_add]
    cases ds with
    | nil => rw [value, digits, dif_pos rfl]
    | cons d' ds => rw [ih hds (by simpa using hlast)]

/-- There is no leading zero. -/
theorem getLast?_digits (b n : Nat) : (digits b n).getLast? ≠ some 0 := by
  induction n using Nat.strongRecOn with
  | ind n ih =>
    rw [digits]
    split
    · simp
    · next hn =>
      have hlt : n / (b + 2) < n := Nat.div_lt_self (Nat.pos_of_ne_zero hn) (by omega)
      cases hrest : digits b (n / (b + 2)) with
      | nil =>
        have hzero : n / (b + 2) = 0 := by rw [← value_digits b (n / (b + 2)), hrest, value]
        have hmod : n % (b + 2) = n := Nat.mod_eq_of_lt ((Nat.div_eq_zero_iff_lt (by omega)).mp hzero)
        simpa [hmod] using hn
      | cons d ds =>
        have := ih _ hlt
        rw [hrest] at this
        simpa using this

theorem valueLE_eq_value (bs : Bytes) : Bytes.valueLE bs = value 254 (bs.map UInt8.toNat) := by
  induction bs with
  | nil => rfl
  | cons b bs ih => rw [Bytes.valueLE, ih, List.map_cons, value]

end Radix

namespace Base58

theorem digit?_char {d : Nat} (h : d < 58) : digit? (char d) = some d := by
  revert d
  decide +kernel

theorem decode?_encode (bs : Bytes) : decode? (encode bs) = some bs := by
  obtain ⟨r, hr, hhead⟩ := Lists.eq_replicate_append 0 bs
  unfold encode
  generalize (bs.takeWhile (· == 0)).length = n at hr ⊢
  subst hr
  have hvalue : Bytes.valueBE (List.replicate n 0 ++ r) = Radix.value 254 (r.reverse.map UInt8.toNat) := by
    rw [Bytes.valueBE, Radix.valueLE_eq_value, List.reverse_append, List.reverse_replicate,
      List.map_append, List.map_replicate]
    exact Radix.value_append_zeros _ _ n
  rw [hvalue]
  generalize hv : Radix.value 254 (r.reverse.map UInt8.toNat) = v
  have hchars : List.replicate n '1' ++ (Radix.digits 56 v).reverse.map char =
      (List.replicate n 0 ++ (Radix.digits 56 v).reverse).map char := by
    rw [List.map_append, List.map_replicate]
    rfl
  have hlt : ∀ d ∈ List.replicate n 0 ++ (Radix.digits 56 v).reverse, d < 58 := by
    intro d hd
    rcases List.mem_append.mp hd with hd | hd
    · rw [List.eq_of_mem_replicate hd]
      decide
    · exact Radix.lt_of_mem_digits (List.mem_reverse.mp hd)
  have hread : ((List.replicate n 0 ++ (Radix.digits 56 v).reverse).map char).mapM digit? =
      some (List.replicate n 0 ++ (Radix.digits 56 v).reverse) := by
    rw [List.mapM_map]
    exact (Lists.mapM_eq_some fun d hd => digit?_char (hlt d hd)).trans
      (congrArg some (List.map_id' _))
  have hzeros : ((List.replicate n 0 ++ (Radix.digits 56 v).reverse).takeWhile (· == 0)).length = n := by
    rw [Lists.takeWhile_replicate_append, List.length_replicate]
    rw [List.head?_reverse]
    exact Radix.getLast?_digits 56 v
  have hbytes : Radix.digits 254 v = r.reverse.map UInt8.toNat := by
    rw [← hv]
    refine Radix.digits_value (fun d hd => ?_) ?_
    · obtain ⟨b, _, rfl⟩ := List.mem_map.mp hd
      exact b.toNat_lt
    · rw [List.getLast?_map, List.getLast?_reverse]
      intro hlast
      obtain ⟨b, hb, hzero⟩ := Option.map_eq_some_iff.mp hlast
      exact hhead (hb.trans (congrArg some (UInt8.toNat_inj.mp hzero)))
  rw [decode?, String.toList_ofList, hchars, hread]
  simp only [Option.bind_eq_bind, Option.bind_some, hzeros, List.reverse_append, List.reverse_reverse,
    List.reverse_replicate, Radix.value_append_zeros, Radix.value_digits, hbytes]
  simp [List.map_reverse, Function.comp_def]

end Base58

namespace PublicKey

@[simp] theorem ofText?_toText (k : PublicKey) : ofText? k.toText = some k := by
  rw [ofText?, toText, Base58.decode?_encode, Option.bind_some, ofBytes?_bytes]

end PublicKey

end DexIndex
